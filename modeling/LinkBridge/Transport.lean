import LinkBridge.Sample.Word

/-!
The transport.

Words to send wait in a queue until the bridge accepts them, and words received pile up until they
are taken.  With a limit the transport refuses further words once it holds that many.
-/

namespace LinkBridge

structure Transport where
  pending : List SampleWord := []
  received : Array SampleWord := #[]
  limit : Option Nat := none
  sent : Nat := 0
deriving DecidableEq, Repr

namespace Transport

instance : Inhabited Transport := ⟨{}⟩

def send (t : Transport) (words : List SampleWord) : Transport :=
  { t with pending := t.pending ++ words }

def offered (t : Transport) : Option SampleWord := t.pending.head?

def acceptOffered (t : Transport) : Transport :=
  match t.pending with
  | [] => t
  | _ :: rest => { t with pending := rest, sent := t.sent + 1 }

def ready (t : Transport) : Bool :=
  match t.limit with
  | some limit => t.received.size < limit
  | none => true

def deliver (t : Transport) (word : SampleWord) : Transport :=
  { t with received := t.received.push word }

@[simp] theorem pending_send (t : Transport) (words : List SampleWord) :
    (t.send words).pending = t.pending ++ words := rfl

theorem pending_of_offered {t : Transport} {word : SampleWord} (h : t.offered = some word) :
    t.pending = word :: t.acceptOffered.pending := by
  unfold offered at h
  unfold acceptOffered
  cases hp : t.pending with
  | nil => simp [hp] at h
  | cons w rest => simpa [hp] using h

def take (t : Transport) : Transport × Array SampleWord := ({ t with received := #[] }, t.received)

end Transport
end LinkBridge
