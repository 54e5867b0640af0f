import LinkBridge.Config.Basic
import LinkBridge.Toml.Text

/-!
The text of a configuration.

Every section is written with all its fields, so that a file starts from an explicit description
of the link.
-/

namespace LinkBridge

def PinPolarity.entries (p : PinPolarity) : List (String × String) :=
  [ ("reset", Toml.quoted p.reset.name),
    ("power_down", Toml.quoted p.powerDown.name),
    ("tx_enable", Toml.quoted p.txEnable.name),
    ("rx_enable", Toml.quoted p.rxEnable.name) ]

namespace LinkConfig

def sections (c : LinkConfig) : List (String × List (String × String)) :=
  [ ("clocks",
      [ ("sys", Toml.quoted c.clocks.control),
        ("link", Toml.quoted c.clocks.link),
        ("link_phase", Toml.floatText c.clocks.linkPhase) ]),
    ("transport", [("kind", Toml.quoted c.transport.name)]),
    ("bridge",
      [ ("tx_delay", Digits.decimal c.bridge.txDelay),
        ("rx_delay", Digits.decimal c.bridge.rxDelay),
        ("sync_stages", Digits.decimal c.bridge.syncStages),
        ("fifo_depth", Digits.decimal c.bridge.fifoDepth),
        ("activity_window", Digits.decimal c.bridge.activityWindow),
        ("loopback_mask", Digits.decimal c.bridge.loopbackMask.toNat) ]),
    ("polarity", c.polarity.entries),
    ("transceiver",
      [ ("mode", Toml.quoted c.transceiver.mode.name),
        ("tx_eye", window c.transceiver.txEye),
        ("rx_eye", window c.transceiver.rxEye),
        ("latency", Digits.decimal c.transceiver.latency),
        ("phase_inverted", Toml.flagText c.transceiver.phaseInverted),
        ("seed", Digits.decimal c.transceiver.seed.toNat) ]),
    ("transceiver.polarity", c.transceiver.polarity.entries),
    ("scan", [("dwell", Toml.quoted c.dwell)]) ]
where
  window (bounds : Nat × Nat) : String :=
    Toml.listText [Digits.decimal bounds.1, Digits.decimal bounds.2]

/-- The whole text, with a blank line between sections. -/
def text (c : LinkConfig) : String :=
  "\n".intercalate (c.sections.map fun (name, entries) => Toml.sectionText name entries)

end LinkConfig
end LinkBridge
