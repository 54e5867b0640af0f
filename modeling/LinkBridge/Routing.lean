import LinkBridge.Sample.Word

/-!
Routing at the link boundary.

Towards the link, the pattern generator goes before the converter.  From the link, loopback puts
the masked word being sent in place of the received one, and the checker, while it is ready, takes
the sample before the converter.
-/

namespace LinkBridge.Routing

/-- The converter may take a word only while the generator leaves the link free. -/
def converterReady (generating converterReady : Bool) : Bool := converterReady && !generating

/-- The word on the link: zero when nobody sends. -/
def txWord (generated converted : Option LinkWord) : LinkWord :=
  (generated <|> converted).getD default

def rxSample (mask : UInt32) (loopback : Bool) (tx received : LinkSample) : LinkSample :=
  if loopback then { tx with word := tx.word.masked mask } else received

inductive Route where
  | checker (sample : LinkSample)
  | converter (sample : LinkSample)
deriving DecidableEq, Repr

def route (checkerReady : Bool) (sample : LinkSample) : Route :=
  if checkerReady then .checker sample else .converter sample

def Route.toChecker : Route → Option LinkSample
  | .checker s => some s
  | .converter _ => none

def Route.toConverter : Route → Option LinkSample
  | .checker _ => none
  | .converter s => some s

end LinkBridge.Routing
