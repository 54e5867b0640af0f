import LinkBridge.Proofs.Bridge.SelfTest

/-!
The controls cross together.

Loopback bit and pattern controls cross through chains of their own.  All three are driven in the
same control cycles and ticked in the same link cycles, so they are the parts of one chain that
carries the controls as a whole, and what comes out is what went in.  A link cycle feeds this chain
what the registers held in the last control cycle, and works under what was fed `stages - 1` cycles
before.
-/

namespace LinkBridge

open Crossing

namespace Bridge

/-- The controls that the registers ask for. -/
def requested (b : Bridge) : LinkControls :=
  { loopback := b.control.control.loopback, tx := b.control.txPattern,
    rx := b.control.rxPattern }

/-- The controls that the chains take in with the next link cycle. -/
def driven (b : Bridge) : LinkControls :=
  { loopback := b.crossings.loopback.source, tx := b.crossings.txPattern.source,
    rx := b.crossings.rxPattern.source }

/-- The three chains are the parts of a chain of controls. -/
structure Bundled (x : Chain LinkControls) (b : Bridge) : Prop where
  loopback_eq : b.crossings.loopback = x.map LinkControls.loopback
  txPattern_eq : b.crossings.txPattern = x.map LinkControls.tx
  rxPattern_eq : b.crossings.rxPattern = x.map LinkControls.rx

namespace Bundled

variable {x : Chain LinkControls} {b : Bridge}

theorem start (p : BridgeParams) : Bundled (.new p.syncStages {}) (ofParams p) :=
  ⟨(Chain.map_new LinkControls.loopback p.syncStages {}).symm,
    (Chain.map_new LinkControls.tx p.syncStages {}).symm,
    (Chain.map_new LinkControls.rx p.syncStages {}).symm⟩

theorem source_eq (h : Bundled x b) : x.source = b.driven := by
  unfold driven
  rw [h.loopback_eq, h.txPattern_eq, h.rxPattern_eq]
  rfl

theorem tickControl (h : Bundled x b) (t : Transport) :
    Bundled (x.drive b.requested) (b.tickControl t).1 := by
  constructor
  · rw [loopback_tickControl, h.loopback_eq, ← Chain.map_drive]
    rfl
  · rw [txPattern_tickControl, h.txPattern_eq, ← Chain.map_drive]
    rfl
  · rw [rxPattern_tickControl, h.rxPattern_eq, ← Chain.map_drive]
    rfl

theorem tickLink (h : Bundled x b) (received : LinkSample) :
    Bundled x.tick (b.tickLink received) := by
  constructor
  · rw [loopback_tickLink, h.loopback_eq, Chain.map_tick]
  · rw [txPattern_tickLink, h.txPattern_eq, Chain.map_tick]
  · rw [rxPattern_tickLink, h.rxPattern_eq, Chain.map_tick]

theorem linkControls_eq (h : Bundled x b) : b.linkControls = x.tick.output := by
  unfold linkControls Crossings.tickControls Crossings.controls
  rw [h.loopback_eq, h.txPattern_eq, h.rxPattern_eq]
  simp only [Chain.map_tick, Chain.output_map]

end Bundled
end Bridge

theorem getLastD_append {α : Type} (a b : List α) (d : α) :
    (a ++ b).getLastD d = b.getLastD (a.getLastD d) := by
  induction a generalizing d with
  | nil => rfl
  | cons v rest ih => rw [List.cons_append, List.getLastD_cons, List.getLastD_cons, ih]

namespace Session

/-- The controls that the registers hold in a control cycle. -/
def requests (s : Session) : Operation → List LinkControls
  | .control => [s.bridge.requested]
  | _ => []

/-- The controls that a link cycle feeds to the chains. -/
def feeds (s : Session) : Operation → List LinkControls
  | .link _ => [s.bridge.driven]
  | _ => []

/-- The controls that the registers held in the last control cycle of a run, or those of reset. -/
def lastRequest (s : Session) (ops : List Operation) : LinkControls :=
  (Trace.gather step requests s ops).getLastD {}

theorem length_feeds (s : Session) (ops : List Operation) :
    (Trace.gather step feeds s ops).length = ops.countP Operation.isLink := by
  refine Trace.length_gather (fun s o => ?_) s ops
  cases o <;> rfl

theorem driven_step (s : Session) (o : Operation) :
    (s.step o).bridge.driven = (s.requests o).getLastD s.bridge.driven := by
  cases o with
  | write address value =>
    unfold Bridge.driven
    rw [crossings_write]
    rfl
  | _ => rfl

theorem driven_run (s : Session) (ops : List Operation) :
    (s.run ops).bridge.driven = (Trace.gather step requests s ops).getLastD s.bridge.driven := by
  induction ops generalizing s with
  | nil => rfl
  | cons o rest ih =>
    show ((s.step o).run rest).bridge.driven = _
    rw [ih, driven_step, Trace.gather, getLastD_append]

/-- The link cycle with so many behind it. -/
theorem exists_link {ops : List Operation} {n : Nat} (h : n < ops.countP Operation.isLink) :
    ∃ earlier received later, ops = earlier ++ .link received :: later ∧
      later.countP Operation.isLink = n := by
  induction ops with
  | nil => exact absurd h (Nat.not_lt_zero n)
  | cons o rest ih =>
    by_cases hrest : n < rest.countP Operation.isLink
    · obtain ⟨earlier, received, later, rfl, hlater⟩ := ih hrest
      exact ⟨o :: earlier, received, later, rfl, hlater⟩
    · cases o with
      | link received =>
        rw [List.countP_cons_of_pos rfl] at h
        exact ⟨[], received, rest, rfl, by omega⟩
      | _ => exact absurd h hrest

/-- The chains were fed these controls, all parts of each together. -/
def Fed (stages : Nat) (fed : List LinkControls) (s : Session) : Prop :=
  ∃ x, s.bridge.Bundled x ∧ x.Fed stages {} fed

theorem fed_step {stages : Nat} {fed : List LinkControls} {s : Session} (h : s.Fed stages fed)
    (o : Operation) : (s.step o).Fed stages (fed ++ s.feeds o) := by
  obtain ⟨x, hbundled, hfed⟩ := h
  cases o with
  | control =>
    refine ⟨_, hbundled.tickControl s.transport, ?_⟩
    show (x.drive s.bridge.requested).Fed stages {} (fed ++ [])
    rw [List.append_nil]
    exact hfed.drive _
  | link received =>
    refine ⟨_, hbundled.tickLink received, ?_⟩
    show x.tick.Fed stages {} (fed ++ [s.bridge.driven])
    rw [← hbundled.source_eq]
    exact hfed.tick
  | write address value =>
    have hcrossings := s.crossings_write address value
    refine ⟨x, ⟨hcrossings ▸ hbundled.loopback_eq, hcrossings ▸ hbundled.txPattern_eq,
      hcrossings ▸ hbundled.rxPattern_eq⟩, ?_⟩
    show x.Fed stages {} (fed ++ [])
    rw [List.append_nil]
    exact hfed
  | _ =>
    refine ⟨x, hbundled, ?_⟩
    show x.Fed stages {} (fed ++ [])
    rw [List.append_nil]
    exact hfed

theorem fed_run {stages : Nat} {fed : List LinkControls} {s : Session} (h : s.Fed stages fed)
    (ops : List Operation) : (s.run ops).Fed stages (fed ++ Trace.gather step feeds s ops) :=
  Trace.gather_invariant (R := Fed stages) (A := fun _ _ => True)
    (fun _ _ o hs _ => fed_step hs o) h (Trace.along_true s ops)

theorem fed_new {p : BridgeParams} {b : Bridge} (hb : Bridge.new p = .ok b) (t : Transport)
    (ops : List Operation) :
    (run ⟨b, t⟩ ops).Fed p.syncStages (Trace.gather step feeds ⟨b, t⟩ ops) := by
  have hstages := BridgeParams.minStages_le (Bridge.check_of_new hb)
  obtain rfl := Bridge.eq_ofParams hb
  exact fed_run ⟨_, Bridge.Bundled.start p, Chain.Fed.new hstages _⟩ ops

namespace Fed

variable {stages : Nat} {fed : List LinkControls} {s : Session}

theorem linkControls_of_early (h : s.Fed stages fed) (hearly : fed.length + 1 < stages) :
    s.bridge.linkControls = {} := by
  obtain ⟨x, hbundled, hfed⟩ := h
  rw [hbundled.linkControls_eq]
  exact hfed.output_tick_of_early hearly

theorem linkControls_of_fed {older newer : List LinkControls} {c : LinkControls}
    (h : s.Fed stages (older ++ c :: newer)) (hnewer : newer.length + 2 = stages) :
    s.bridge.linkControls = c := by
  obtain ⟨x, hbundled, hfed⟩ := h
  rw [hbundled.linkControls_eq]
  exact hfed.output_tick_of_fed hnewer

end Fed

section New

variable {p : BridgeParams} {b : Bridge} (hb : Bridge.new p = .ok b) (t : Transport)

include hb

theorem driven_new (ops : List Operation) :
    (run ⟨b, t⟩ ops).bridge.driven = lastRequest ⟨b, t⟩ ops := by
  have hreset : b.driven = {} := by
    obtain rfl := Bridge.eq_ofParams hb
    rfl
  rw [driven_run, hreset]
  rfl

/-- A link cycle works under what the registers asked for when the chains took it in. -/
theorem linkControls_of_link {earlier later : List Operation} (received : LinkSample)
    (hlater : later.countP Operation.isLink + 2 = p.syncStages) :
    (run ⟨b, t⟩ (earlier ++ .link received :: later)).bridge.linkControls =
      lastRequest ⟨b, t⟩ earlier := by
  have hfed := fed_new hb t (earlier ++ .link received :: later)
  rw [Trace.gather_append] at hfed
  rw [← driven_new hb]
  refine hfed.linkControls_of_fed ?_
  show (Trace.gather step feeds _ later).length + 2 = p.syncStages
  rw [length_feeds]
  exact hlater

theorem linkControls_of_early {ops : List Operation}
    (hearly : ops.countP Operation.isLink + 1 < p.syncStages) :
    (run ⟨b, t⟩ ops).bridge.linkControls = {} := by
  refine (fed_new hb t ops).linkControls_of_early ?_
  rw [length_feeds]
  exact hearly

end New

/-! ### What a run hands over -/

/-- The last request was made in a control cycle, if there was one. -/
theorem lastRequest_eq (s : Session) (ops : List Operation) :
    s.lastRequest ops = {} ∨
      ∃ earlier later, ops = earlier ++ .control :: later ∧
        s.lastRequest ops = (s.run earlier).bridge.requested := by
  have hmem : s.lastRequest ops ∈ {} :: Trace.gather step requests s ops :=
    List.getLastD_mem_cons
  rcases List.mem_cons.mp hmem with hreset | hmade
  · exact .inl hreset
  · obtain ⟨earlier, o, later, hops, hnow⟩ := Trace.exists_of_mem_gather hmade
    cases o with
    | control => exact .inr ⟨earlier, later, hops, List.mem_singleton.mp hnow⟩
    | _ => exact nomatch hnow

/-- After a control cycle the last request is that cycle's or a later one. -/
theorem lastRequest_mem (s : Session) (earlier held : List Operation) :
    s.lastRequest (earlier ++ .control :: held) ∈
      Trace.gather step requests (s.run earlier) (.control :: held) := by
  unfold lastRequest
  rw [Trace.gather_append, getLastD_append]
  have hhead : Trace.gather step requests (s.run earlier) (.control :: held) =
      (s.run earlier).bridge.requested ::
        Trace.gather step requests ((s.run earlier).step .control) held := rfl
  show (Trace.gather step requests (s.run earlier) (.control :: held)).getLastD _ ∈ _
  rw [hhead, List.getLastD_cons]
  exact List.getLastD_mem_cons

theorem linkControls_mem_requests {p : BridgeParams} {b : Bridge} (hb : Bridge.new p = .ok b)
    (t : Transport) (earlier held : List Operation) (received : LinkSample)
    {later : List Operation} (hlater : later.countP Operation.isLink + 2 = p.syncStages) :
    (run ⟨b, t⟩ (earlier ++ .control :: held ++ .link received :: later)).bridge.linkControls ∈
      Trace.gather step requests (run ⟨b, t⟩ earlier) (.control :: held) := by
  rw [linkControls_of_link hb t received hlater]
  exact lastRequest_mem _ earlier held

/-- A link cycle works under the controls that the registers held together in the last control cycle
before the link cycle `syncStages - 1` back, or under those of reset.  So once a control cycle has
handed over that a pattern is off, and no other has asked for it again, generator and checker are
out of the way from the link cycle on that is the `syncStages`-th after it. -/
theorem controls_cross_together {p : BridgeParams} {b : Bridge} (hb : Bridge.new p = .ok b)
    (t : Transport) (done : List Operation) :
    let start : Session := ⟨b, t⟩
    let now := (start.run done).bridge
    let cycle := done.countP Operation.isLink + 1
    (cycle < p.syncStages → now.linkControls = {}) ∧
      (∀ earlier received later, done = earlier ++ .link received :: later →
        earlier.countP Operation.isLink + p.syncStages = cycle →
        now.linkControls = start.lastRequest earlier) ∧
      (now.linkControls = {} ∨ ∃ earlier later, done = earlier ++ .control :: later ∧
        now.linkControls = (start.run earlier).bridge.requested) ∧
      ∀ earlier held received later,
        done = earlier ++ .control :: held ++ .link received :: later →
        later.countP Operation.isLink + 2 = p.syncStages →
        let requests := Trace.gather step requests (start.run earlier) (.control :: held)
        ((∀ c ∈ requests, c.tx.enable = false) → now.generated = none ∧ ∀ sample,
          (now.tickLink sample).txPads = .framed (now.converted.getD default) now.link.frame) ∧
        ((∀ c ∈ requests, c.rx.enable = false) → ∀ sample,
          (now.tickLink sample).linkErrors = now.linkErrors) := by
  intro start now cycle
  have hlatency : ∀ earlier received later, done = earlier ++ .link received :: later →
      later.countP Operation.isLink + 2 = p.syncStages →
      now.linkControls = start.lastRequest earlier := by
    rintro earlier received later rfl hlater
    exact linkControls_of_link hb t received hlater
  have hexact : ∀ earlier received later, done = earlier ++ .link received :: later →
      earlier.countP Operation.isLink + p.syncStages = cycle →
      now.linkControls = start.lastRequest earlier := by
    intro earlier received later hdone hcycle
    refine hlatency earlier received later hdone ?_
    have hcount : cycle = earlier.countP Operation.isLink +
        (later.countP Operation.isLink + 1) + 1 := by
      show done.countP Operation.isLink + 1 = _
      rw [hdone, List.countP_append, List.countP_cons_of_pos rfl]
    omega
  refine ⟨linkControls_of_early hb t, hexact, ?_, ?_⟩
  · by_cases hearly : cycle < p.syncStages
    · exact .inl (linkControls_of_early hb t hearly)
    · have hstages := BridgeParams.minStages_le (Bridge.check_of_new hb)
      have htwo : minStages = 2 := rfl
      have hlinks : p.syncStages - 2 < done.countP Operation.isLink := by omega
      obtain ⟨earlier, received, later, hdone, hlater⟩ := exists_link hlinks
      rw [hlatency earlier received later hdone (by omega)]
      rcases start.lastRequest_eq earlier with hreset | ⟨before, after, hbefore, hrequest⟩
      · exact .inl hreset
      · refine .inr ⟨before, after ++ .link received :: later, ?_, hrequest⟩
        rw [hdone, hbefore, List.append_assoc]
        rfl
  · intro earlier held received later hdone hlater requests
    have hmem : now.linkControls ∈ requests := by
      show (start.run done).bridge.linkControls ∈ requests
      rw [hdone]
      exact linkControls_mem_requests hb t earlier held received hlater
    constructor
    · intro hoff
      have hnone := Bridge.generated_of_disabled (hoff _ hmem)
      refine ⟨hnone, fun sample => ?_⟩
      show now.sending = _
      rw [Bridge.sending, hnone]
      rfl
    · intro hoff sample
      show (now.tickLink sample).link.checker.errors = _
      rw [Bridge.checker_of_disabled (hoff _ hmem)]
      rfl

/-- The generator is switched off after its first word: one more follows, then none. -/
theorem controls_cross_together_at_disable :
    let start : Session := ⟨Bridge.ofParams {}, {}⟩
    let earlier : List Operation :=
      [.write Register.txPattern.address 1, .control, .link default, .link default,
        .write Register.txPattern.address 0]
    let done := earlier ++ .control :: [] ++ .link default :: []
    let now := (start.run done).bridge
    Bridge.new {} = .ok (Bridge.ofParams {}) ∧
      (start.run earlier).bridge.linkControls.tx.enable = true ∧
      now.linkControls = start.lastRequest (earlier ++ [.control]) ∧ now.generated = none ∧
      ∀ sample, (now.tickLink sample).txPads =
        .framed (now.converted.getD default) now.link.frame := by
  intro start earlier done now
  obtain ⟨-, hexact, -, hoff⟩ := controls_cross_together (p := {}) rfl {} done
  exact ⟨rfl, by decide +kernel, hexact (earlier ++ [.control]) default [] rfl rfl,
    (hoff earlier [] default [] rfl rfl).1 (by decide +kernel)⟩

end Session
end LinkBridge
