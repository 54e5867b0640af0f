import LinkBridge.Datum
import LinkBridge.Run.Scan

/-!
Samples and scan reports as data, for output in JSON.
-/

namespace LinkBridge

def LinkSample.datum (s : LinkSample) : Datum :=
  .table
    [ ("word", .table
        [("phases", .list [.nat s.word.phase0.toNat, .nat s.word.phase1.toNat])]),
      ("frame", .list [.flag s.frame0, .flag s.frame1]) ]

def TapResult.datum (r : TapResult) : Datum :=
  .table [("tap", .nat r.tap), ("errors", .nat r.errors.toNat)]

def EyeWindow.datum (w : EyeWindow) : Datum :=
  .table [("start", .nat w.first), ("end", .nat w.last), ("center", .nat w.center)]

def ScanReport.datum (r : ScanReport) : Datum :=
  .table
    [ ("direction", .text r.direction.name),
      ("pattern", .text r.pattern.name),
      ("other_tap", .nat r.other.value),
      ("taps", .list (r.results.map (·.datum))),
      ("window", (r.window.map (·.datum)).getD .null) ]

end LinkBridge
