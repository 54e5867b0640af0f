import LinkBridge.Proofs.Bridge.Session
import LinkBridge.Proofs.Crossing.Handshake

/-!
Error count and cycle count belong together.

The two counts cross through handshakes of their own.  But both handshakes start alike and are
clocked alike, and neither looks at what it carries, so they are the two parts of one crossing that
carries both counts of a link cycle.  What the control domain sees is therefore what the link domain
had after one and the same cycle, and that cycle never goes back.
-/

namespace LinkBridge

open Crossing

/-- What a link cycle reports to the control domain. -/
structure Snapshot where
  errors : UInt32
  cycles : UInt32
deriving DecidableEq, Repr

namespace Bridge

def snapshot (b : Bridge) : Snapshot := { errors := b.linkErrors, cycles := b.link.cycles }

/-- The crossings of the two counts are the parts of a crossing of snapshots. -/
structure Joined (x : BusCrossing Snapshot) (b : Bridge) : Prop where
  errors_eq : b.crossings.errors = x.map Snapshot.errors
  cycles_eq : b.crossings.cycles = x.map Snapshot.cycles
  errorsSeen_eq : b.control.errors = x.value.errors
  cyclesSeen_eq : b.control.cyclesSeen = x.value.cycles

namespace Joined

variable {x : BusCrossing Snapshot} {b : Bridge}

theorem start (p : BridgeParams) :
    Joined (.new p.syncStages (ofParams p).snapshot) (ofParams p) :=
  ⟨rfl, rfl, rfl, rfl⟩

theorem tickControl (h : Joined x b) (t : Transport) :
    Joined x.destinationTick (b.tickControl t).1 := by
  have herrors : b.crossings.errors.destinationTick = x.destinationTick.map Snapshot.errors := by
    rw [h.errors_eq, BusCrossing.map_destinationTick]
  have hcycles : b.crossings.cycles.destinationTick = x.destinationTick.map Snapshot.cycles := by
    rw [h.cycles_eq, BusCrossing.map_destinationTick]
  refine ⟨herrors, hcycles, ?_, ?_⟩
  · show b.crossings.errors.destinationTick.value = _
    rw [herrors, BusCrossing.value_map]
  · show b.crossings.cycles.destinationTick.value = _
    rw [hcycles, BusCrossing.value_map]

/-- Both handshakes are offered their counts after the same cycle. -/
theorem tickLink (h : Joined x b) (received : LinkSample) :
    Joined (x.sourceTick (b.tickLink received).snapshot) (b.tickLink received) where
  errors_eq := by
    rw [errors_tickLink, h.errors_eq, ← BusCrossing.map_sourceTick]
    rfl
  cycles_eq := by
    rw [cycles_tickLink, h.cycles_eq, ← BusCrossing.map_sourceTick]
    rfl
  errorsSeen_eq := by
    rw [control_tickLink, BusCrossing.value_sourceTick]
    exact h.errorsSeen_eq
  cyclesSeen_eq := by
    rw [control_tickLink, BusCrossing.value_sourceTick]
    exact h.cyclesSeen_eq

theorem writeRegister (h : Joined x b) (r : Register) (value : UInt32) :
    Joined x (b.writeRegister r value) :=
  ⟨h.errors_eq, h.cycles_eq, (errors_writeRegister r value).trans h.errorsSeen_eq,
    (cyclesSeen_writeRegister r value).trans h.cyclesSeen_eq⟩

end Joined
end Bridge

namespace Session

def reported (s : Session) : Operation → List Snapshot
  | .link received => [(s.bridge.tickLink received).snapshot]
  | _ => []

/-- The error count of the link domain after each of its cycles. -/
def linkErrorsAfter (s : Session) : Operation → List UInt32
  | .link received => [(s.bridge.tickLink received).linkErrors]
  | _ => []

theorem errors_reported (s : Session) (ops : List Operation) :
    (Trace.gather step reported s ops).map Snapshot.errors =
      Trace.gather step linkErrorsAfter s ops := by
  have hparts : (fun (s : Session) o => (s.reported o).map Snapshot.errors) =
      linkErrorsAfter := by
    funext s o
    cases o <;> rfl
  rw [Trace.gather_hom List.map_nil (fun _ _ => List.map_append), hparts]

theorem length_reported (s : Session) (ops : List Operation) :
    (Trace.gather step reported s ops).length = ops.countP Operation.isLink := by
  refine Trace.length_gather (fun s o => ?_) s ops
  cases o <;> rfl

/-- What has crossed is the snapshot of one cycle.  The snapshot of reset stands in front of those
of the link cycles, so that its number in the list is that of the cycle. -/
structure Coherent (seen : List Snapshot) (cycle : Nat) (s : Session) : Prop where
  crossing : ∃ x held, BusCrossing.Dated seen held cycle x ∧ s.bridge.Joined x
  numbered : ∀ k v, seen[k]? = some v → v.cycles = UInt32.ofNat k
  next_eq : s.bridge.link.cycles + 1 = UInt32.ofNat seen.length

namespace Coherent

variable {seen : List Snapshot} {cycle : Nat} {s : Session}

theorem new {p : BridgeParams} {b : Bridge} (hb : Bridge.new p = .ok b) (t : Transport) :
    Coherent [b.snapshot] 0 ⟨b, t⟩ := by
  obtain rfl := Bridge.eq_ofParams hb
  refine ⟨⟨_, 0, BusCrossing.Dated.new p.syncStages _, Bridge.Joined.start p⟩, ?_, rfl⟩
  intro k v hv
  cases k with
  | zero =>
    obtain rfl := Option.some.inj hv
    rfl
  | succ k => simp at hv

theorem link (h : Coherent seen cycle s) (received : LinkSample) :
    Coherent (seen ++ [(s.bridge.tickLink received).snapshot]) cycle
      (s.step (.link received)) := by
  obtain ⟨x, held, hdated, hjoined⟩ := h.crossing
  obtain ⟨held', hnext⟩ := hdated.sourceTick (s.bridge.tickLink received).snapshot
  refine ⟨⟨_, held', hnext, hjoined.tickLink received⟩, ?_, ?_⟩
  · intro k v hv
    by_cases hk : k < seen.length
    · rw [List.getElem?_append_left hk] at hv
      exact h.numbered k v hv
    · have hlt := (List.getElem?_eq_some_iff.mp hv).1
      rw [List.length_append, List.length_singleton] at hlt
      obtain rfl : k = seen.length := by omega
      rw [List.getElem?_concat_length] at hv
      obtain rfl := Option.some.inj hv
      exact h.next_eq
  · show s.bridge.link.cycles + 1 + 1 = _
    rw [h.next_eq, List.length_append, UInt32.ofNat_add]
    rfl

theorem step (h : Coherent seen cycle s) (o : Operation) :
    ∃ later, cycle ≤ later ∧ Coherent (seen ++ s.reported o) later (s.step o) := by
  obtain ⟨x, held, hdated, hjoined⟩ := h.crossing
  have hsame : ∀ u : Session, u.bridge.Joined x → u.bridge.link = s.bridge.link →
      ∃ later, cycle ≤ later ∧ Coherent (seen ++ []) later u := by
    intro u hu hlink
    rw [List.append_nil]
    exact ⟨cycle, Nat.le_refl _, ⟨x, held, hdated, hu⟩, h.numbered, hlink ▸ h.next_eq⟩
  cases o with
  | control =>
    obtain ⟨later, hle, hnext⟩ := hdated.destinationTick
    refine ⟨later, hle, ?_⟩
    show Coherent (seen ++ []) _ _
    rw [List.append_nil]
    exact ⟨⟨_, held, hnext, hjoined.tickControl s.transport⟩, h.numbered, h.next_eq⟩
  | link received => exact ⟨cycle, Nat.le_refl _, h.link received⟩
  | write address value =>
    refine hsame _ ?_ (s.link_write address value)
    rcases s.step_write address value with hstep | ⟨r, -, hstep⟩
    · rw [hstep]
      exact hjoined
    · rw [hstep]
      exact hjoined.writeRegister r value
  | _ => exact hsame _ hjoined rfl

end Coherent

/-! ### Reading both counts -/

/-- The cycle count was latched, and no control cycle has come since. -/
structure Latched (cycles errors : UInt32) (s : Session) : Prop where
  cyclesSeen_eq : s.bridge.control.cyclesSeen = cycles
  cyclesLatched_eq : s.bridge.control.cyclesLatched = cycles
  errors_eq : s.bridge.control.errors = errors

namespace Latched

variable {cycles errors : UInt32} {s : Session}

theorem start (s : Session) (value : UInt32) :
    Latched s.bridge.control.cyclesSeen s.bridge.control.errors
      (s.step (.write Register.cyclesLatch.address value)) :=
  ⟨rfl, rfl, rfl⟩

theorem step (h : Latched cycles errors s) {o : Operation} (ho : o ≠ .control) :
    Latched cycles errors (s.step o) := by
  cases o with
  | control => exact absurd rfl ho
  | write address value =>
    rcases s.step_write address value with hsame | ⟨r, -, hwrite⟩
    · rw [hsame]
      exact h
    · rw [hwrite]
      refine ⟨(Bridge.cyclesSeen_writeRegister r value).trans h.cyclesSeen_eq, ?_,
        (Bridge.errors_writeRegister r value).trans h.errors_eq⟩
      cases r with
      | cyclesLatch => exact h.cyclesSeen_eq
      | _ => exact h.cyclesLatched_eq
  | _ => exact ⟨h.cyclesSeen_eq, h.cyclesLatched_eq, h.errors_eq⟩

theorem run (h : Latched cycles errors s) {ops : List Operation}
    (hops : Operation.control ∉ ops) : Latched cycles errors (s.run ops) := by
  refine Trace.final_invariant (fun s o hs ho => hs.step ho) h (Trace.along_of_forall s ?_)
  rintro o ho _ rfl
  exact hops ho

end Latched

/-- The registers show an error count and the number of a cycle: both now, and both together once
the cycle count is latched, until the next control cycle. -/
structure Shows (errors : UInt32) (cycle : Nat) (s : Session) : Prop where
  rxErrors_eq : s.bridge.read Register.rxErrors.address = .ok errors
  cyclesSeen_eq : s.bridge.control.cyclesSeen = UInt32.ofNat cycle
  latched : ∀ (value : UInt32) (later : List Operation), Operation.control ∉ later →
    let u := (s.step (.write Register.cyclesLatch.address value)).run later
    u.bridge.read Register.cycles.address = .ok (UInt32.ofNat cycle) ∧
      u.bridge.read Register.rxErrors.address = .ok errors

theorem Coherent.shows {seen : List Snapshot} {cycle : Nat} {s : Session}
    (h : Coherent seen cycle s) :
    ∃ errors, (seen.map Snapshot.errors)[cycle]? = some errors ∧ s.Shows errors cycle := by
  obtain ⟨x, held, hdated, hjoined⟩ := h.crossing
  have hvalue := hdated.copied_eq
  have hread : s.bridge.control.errors = x.value.errors := hjoined.errorsSeen_eq
  have hseen : s.bridge.control.cyclesSeen = UInt32.ofNat cycle :=
    hjoined.cyclesSeen_eq.trans (h.numbered _ _ hvalue)
  refine ⟨x.value.errors, ?_, ?_, hseen, ?_⟩
  · rw [List.getElem?_map, hvalue]
    rfl
  · rw [Bridge.read_address]
    exact congrArg Except.ok hread
  · intro value later hlater u
    have hlatched := (Latched.start s value).run hlater
    rw [Bridge.read_address, Bridge.read_address]
    exact ⟨congrArg Except.ok (hlatched.cyclesLatched_eq.trans hseen),
      congrArg Except.ok (hlatched.errors_eq.trans hread)⟩

theorem Coherent.cycle_lt {seen : List Snapshot} {cycle : Nat} {s : Session}
    (h : Coherent seen cycle s) : cycle < seen.length := by
  obtain ⟨x, held, hdated, -⟩ := h.crossing
  exact (List.getElem?_eq_some_iff.mp hdated.copied_eq).1

/-- At each point of a run there is a link cycle, not yet to come and never an earlier one than
before, whose error count is what the error register reads and whose number the control domain has
as its cycle count.  So the latched count and the error count, read before the next control cycle,
belong to that cycle. -/
theorem snapshots_coherent {p : BridgeParams} {b : Bridge} (hb : Bridge.new p = .ok b)
    (t : Transport) (ops : List Operation) :
    let start : Session := ⟨b, t⟩
    ∃ cycle : Nat → Nat, Monotone cycle ∧ ∀ n,
      let done := ops.take n
      let errorsAfter := b.linkErrors :: Trace.gather step linkErrorsAfter start done
      cycle n ≤ done.countP Operation.isLink ∧
        ∃ errors, errorsAfter[cycle n]? = some errors ∧
          (start.run done).Shows errors (cycle n) := by
  intro start
  obtain ⟨cycle, -, hrising, hall⟩ :=
    Trace.exists_rising (R := Coherent) (fun seen n s o hs => hs.step o) (Coherent.new hb t) ops
  refine ⟨cycle, monotone_nat_of_le_succ hrising, fun n => ?_⟩
  intro done errorsAfter
  have hs : Coherent (b.snapshot :: Trace.gather step reported start done) (cycle n)
      (start.run done) := hall n
  obtain ⟨errors, herrors, hshows⟩ := hs.shows
  refine ⟨?_, errors, ?_, hshows⟩
  · have hlt := hs.cycle_lt
    rw [List.length_cons, length_reported] at hlt
    exact Nat.le_of_lt_succ hlt
  · rw [List.map_cons, errors_reported] at herrors
    exact herrors

/-- The pattern checker counts what it does not expect. -/
theorem snapshots_coherent_while_counting :
    let start : Session := ⟨Bridge.ofParams {}, {}⟩
    let both : List Operation := [.link (.framed ⟨1, 2⟩ frameFirst), .control]
    let ops := .write Register.rxPattern.address 1 :: .control :: both ++ both ++ both ++ both ++
      both ++ both ++ both ++ both ++ both ++ both
    Bridge.new {} = .ok (Bridge.ofParams {}) ∧
      ∃ cycle : Nat → Nat, Monotone cycle ∧ ∀ n,
        let done := ops.take n
        let errorsAfter := (Bridge.ofParams {}).linkErrors ::
          Trace.gather step linkErrorsAfter start done
        cycle n ≤ done.countP Operation.isLink ∧
          ∃ errors, errorsAfter[cycle n]? = some errors ∧
            (start.run done).Shows errors (cycle n) :=
  ⟨rfl, snapshots_coherent (p := {}) rfl _ _⟩

end Session
end LinkBridge
