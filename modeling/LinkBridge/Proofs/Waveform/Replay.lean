import LinkBridge.Proofs.Waveform.Recording

/-!
A recording replays to what it was fed.

A recording is stepped at instants that do not fall, each time with the values that the probes have
then.  What its blocks leave a probe at, up to any instant, is the value at the last of these
moments (`Shows`); and that is what a reader of the text finds (`Faithful`).
-/

namespace LinkBridge.Waveform

/-! ### Values and changes -/

/-- The value that some changes leave a probe with. -/
def Probe.after (p : Probe) (value : Option Nat) (changes : List (Probe × Nat)) : Option Nat :=
  changes.foldl (fun value c => if c.1 = p then some c.2 else value) value

theorem Probe.after_append (p : Probe) (value : Option Nat) (a b : List (Probe × Nat)) :
    p.after value (a ++ b) = p.after (p.after value a) b := List.foldl_append

/-- The probes whose value is not the last one written, with their values. -/
def changed (written : Probe → Option Nat) (value : Probe → Nat) (probes : List Probe) :
    List (Probe × Nat) :=
  probes.filterMap fun p => if written p = some (value p) then none else some (p, value p)

/-- Whether a probe is among the changes or left out, it ends at its value: it starts from what was
last written, or it has its value already. -/
theorem after_changed {written : Probe → Option Nat} {value : Probe → Nat} {probes : List Probe}
    {p : Probe} {start : Option Nat}
    (h : start = some (value p) ∨ start = written p ∧ p ∈ probes) :
    p.after start (changed written value probes) = some (value p) := by
  induction probes generalizing start with
  | nil =>
    rcases h with h | ⟨-, hmem⟩
    · exact h
    · exact absurd hmem List.not_mem_nil
  | cons q rest ih =>
    unfold changed
    rw [List.filterMap_cons]
    by_cases hq : written q = some (value q)
    · rw [if_pos hq]
      rcases h with h | ⟨rfl, hmem⟩
      · exact ih (.inl h)
      · rcases List.mem_cons.mp hmem with rfl | hmem
        · exact ih (.inl hq)
        · exact ih (.inr ⟨rfl, hmem⟩)
    · rw [if_neg hq]
      show p.after (if q = p then some (value q) else start) (changed written value rest) = _
      by_cases hqp : q = p
      · rw [if_pos hqp]
        exact ih (.inl (by rw [hqp]))
      · rw [if_neg hqp]
        rcases h with h | ⟨rfl, hmem⟩
        · exact ih (.inl h)
        · exact ih (.inr ⟨rfl, List.mem_of_ne_of_mem (Ne.symm hqp) hmem⟩)

/-! ### One step of a recording -/

/-- The trace of a probe, given what was last written of each. -/
def traceOf (written : Probe → Option Nat) (p : Probe) : Trace :=
  { probe := p, signal := p.signal, last := written p }

section Record

variable {written : Probe → Option Nat} {b : Bridge} {running : Bool} {p : Probe} {d : Dump}
  {fs : Nat}

theorem record_of_eq (h : written p = some (p.sample b running)) :
    Recording.record fs b running d (traceOf written p) =
      (d, traceOf (fun p => some (p.sample b running)) p) := by
  refine (if_pos h).trans ?_
  rw [traceOf, h]
  rfl

theorem record_of_ne (h : written p ≠ some (p.sample b running)) :
    Recording.record fs b running d (traceOf written p) =
      (d.write fs p.signal (p.sample b running),
        traceOf (fun p => some (p.sample b running)) p) :=
  if_neg h

end Record

theorem recordAll_spec {d : Dump} {blocks : List Block} {fs : Nat} (h : Written d blocks)
    (hle : ∀ b ∈ blocks, b.fs ≤ fs) (written : Probe → Option Nat) (b : Bridge) (running : Bool)
    (probes : List Probe) :
    ∃ d' more, Recording.recordAll fs b running d (probes.map (traceOf written)) =
        (d', probes.map (traceOf fun p => some (p.sample b running))) ∧
      Written d' more ∧
      Extends blocks fs (changed written (Probe.sample b running) probes) more := by
  induction probes generalizing d blocks with
  | nil => exact ⟨d, blocks, rfl, h, .refl hle⟩
  | cons p rest ih =>
    by_cases hp : written p = some (p.sample b running)
    · obtain ⟨d', more, hrest, hwritten, hextends⟩ := ih h hle
      refine ⟨d', more, ?_, hwritten, ?_⟩
      · simp only [List.map_cons, Recording.recordAll, record_of_eq hp, hrest]
      · rw [changed, List.filterMap_cons, if_pos hp]
        exact hextends
    · obtain ⟨next, hnext, hfirst⟩ := h.write hle (p.sample_lt b running)
      obtain ⟨d', more, hrest, hwritten, hextends⟩ := ih hnext hfirst.le
      refine ⟨d', more, ?_, hwritten, ?_⟩
      · simp only [List.map_cons, Recording.recordAll, record_of_ne hp, hrest]
      · rw [changed, List.filterMap_cons, if_neg hp]
        exact hfirst.trans hextends

/-- What the probes show at an instant. -/
structure Moment where
  fs : Nat
  value : Probe → Nat

/-- The last moment up to an instant. -/
def lastUpTo (t : Nat) (history : List Moment) : Option Moment :=
  (history.filter (·.fs ≤ t)).getLast?

section LastUpTo

variable {t : Nat} {history : List Moment} {m : Moment}

theorem lastUpTo_concat_of_le (h : m.fs ≤ t) : lastUpTo t (history ++ [m]) = some m := by
  rw [lastUpTo, List.filter_append, List.filter_cons_of_pos (by simpa using h), List.filter_nil,
    List.getLast?_concat]

theorem lastUpTo_concat_of_lt (h : t < m.fs) :
    lastUpTo t (history ++ [m]) = lastUpTo t history := by
  rw [lastUpTo, List.filter_append, List.filter_cons_of_neg (by simpa using h), List.filter_nil,
    List.append_nil, lastUpTo]

theorem lastUpTo_eq_getLast? (h : ∀ m ∈ history, m.fs ≤ t) :
    lastUpTo t history = history.getLast? := by
  rw [lastUpTo, List.filter_eq_self.mpr fun m hm => decide_eq_true (h m hm)]

end LastUpTo

/-- A recording that was stepped at the moments of a history, and the blocks that it has written. -/
structure Shows (history : List Moment) (blocks : List Block) (r : Recording) : Prop where
  written : Written r.dump blocks
  traces_eq : r.traces = Probe.all.map (traceOf fun p => history.getLast?.map (·.value p))
  le : ∀ b ∈ blocks, ∃ m ∈ history, b.fs ≤ m.fs
  after_eq : ∀ t p, p.after none (madeBy t blocks) = (lastUpTo t history).map (·.value p)

namespace Shows

variable {history : List Moment} {blocks : List Block} {r : Recording}

theorem start : Shows [] [] .start where
  written :=
    { lines_eq := by decide +kernel
      time_eq := by decide +kernel
      part_eq := fun h => absurd rfl h
      rising := List.Pairwise.nil
      full := fun b hb => absurd hb List.not_mem_nil }
  traces_eq := by decide +kernel
  le b hb := absurd hb List.not_mem_nil
  after_eq _ _ := rfl

theorem step (h : Shows history blocks r) {fs : Nat} (hle : ∀ m ∈ history, m.fs ≤ fs) (b : Bridge)
    (running : Bool) :
    ∃ more, Shows (history ++ [⟨fs, fun p => p.sample b running⟩]) more (r.step fs b running) := by
  have hblocks : ∀ b ∈ blocks, b.fs ≤ fs := by
    intro b hb
    obtain ⟨m, hm, hbm⟩ := h.le b hb
    exact Nat.le_trans hbm (hle m hm)
  obtain ⟨d, more, hrecord, hwritten, hextends⟩ := recordAll_spec h.written hblocks
    (fun p => history.getLast?.map (·.value p)) b running Probe.all
  have hstep : r.step fs b running =
      ⟨d, Probe.all.map (traceOf fun p => some (p.sample b running))⟩ := by
    rw [← h.traces_eq] at hrecord
    simp only [Recording.step, hrecord]
  rw [hstep]
  refine ⟨more, hwritten, ?_, fun b hb => ?_, fun t p => ?_⟩
  · rw [List.getLast?_concat]
    rfl
  · exact ⟨_, List.mem_append_right _ List.mem_cons_self, hextends.le b hb⟩
  · rw [hextends.madeBy_eq, Probe.after_append, h.after_eq]
    by_cases ht : fs ≤ t
    · have hpast := lastUpTo_eq_getLast? fun m hm => Nat.le_trans (hle m hm) ht
      rw [if_pos ht, lastUpTo_concat_of_le ht, hpast]
      exact after_changed (.inr ⟨rfl, p.mem_all⟩)
    · rw [if_neg ht, lastUpTo_concat_of_lt (Nat.lt_of_not_le ht)]
      rfl

theorem blocks_ne_nil (h : Shows history blocks r) (hne : history ≠ []) : blocks ≠ [] := by
  rintro rfl
  obtain ⟨m, hm⟩ := List.exists_mem_of_ne_nil history hne
  have hnone : lastUpTo m.fs history = none :=
    Option.map_eq_none_iff.mp (h.after_eq m.fs .txData).symm
  have hkept : m ∈ history.filter (·.fs ≤ m.fs) :=
    List.mem_filter.mpr ⟨hm, decide_eq_true (Nat.le_refl _)⟩
  rw [List.getLast?_eq_none_iff.mp hnone] at hkept
  exact absurd hkept List.not_mem_nil

/-- Nothing is left to write at the end. -/
theorem finish_eq (h : Shows history blocks r) (hne : history ≠ []) : r.finish = r := by
  rw [Recording.finish, Written.finish_eq (h.written.part_eq (h.blocks_ne_nil hne))]

theorem text_eq (h : Shows history blocks r) (hne : history ≠ []) :
    r.dump.text = page (header ++ valueStart ++ blocks.flatMap Block.lines) := by
  have hpart := h.written.part_eq (h.blocks_ne_nil hne)
  rw [text_eq_page, ← h.written.lines_eq, Written.startChanges_eq hpart]

end Shows

/-! ### The text -/

/-- What a viewer reads before the first time stamp. -/
def declared : List Entry :=
  [.other, .other, .other] ++
    Probe.all.map (fun p => .variable p.width p.code.toList p.name.toList) ++
    [.other, .other, .other]

def Block.entries (b : Block) : List Entry :=
  .instant b.fs :: b.changes.map fun (p, value) => .change p.code.toList value

section Text

variable {blocks : List Block}

theorem pieces_written (hfull : ∀ b ∈ blocks, b.Full) :
    pieces '\n' (page (header ++ valueStart ++ blocks.flatMap Block.lines)).toList =
      (header ++ valueStart ++ blocks.flatMap Block.lines).map String.toList := by
  have hheader : ∀ line ∈ header ++ valueStart, '\n' ∉ line.toList := by decide +kernel
  refine pieces_page (List.forall_mem_append.mpr ⟨hheader, fun line hline => ?_⟩)
  obtain ⟨b, hb, hmem⟩ := List.mem_flatMap.mp hline
  exact (Block.isPlain_lines (hfull b hb) hmem).1

theorem readLine_lines {b : Block} (hb : b.Full) :
    b.lines.map (fun line => readLine line.toList) = b.entries := by
  unfold Block.lines Block.entries
  rw [List.map_cons, List.map_map]
  congr 1
  · simp only [String.toList_append, Digits.decimal, String.toList_ofList]
    exact readLine_instant b.fs
  · exact List.map_congr_left fun c hc => readLine_line (hb.2 c hc)

theorem entries_written (hfull : ∀ b ∈ blocks, b.Full) :
    entries (page (header ++ valueStart ++ blocks.flatMap Block.lines)) =
      declared ++ blocks.flatMap Block.entries := by
  have hdeclared : (header ++ valueStart).map (fun line => readLine line.toList) = declared := by
    decide +kernel
  rw [entries, pieces_written hfull, List.map_map, List.map_append, List.map_flatMap]
  congr 1
  rw [List.flatMap_def, List.flatMap_def]
  exact congrArg List.flatten (List.map_congr_left fun b hb => readLine_lines (hfull b hb))

theorem codeOf_declared (p : Probe) (rest : List Entry) :
    codeOf p.name.toList (declared ++ rest) = some p.code.toList := by
  have hall : ∀ p ∈ Probe.all, codeOf p.name.toList declared = some p.code.toList := by
    decide +kernel
  have hp := hall p p.mem_all
  unfold codeOf at hp ⊢
  rw [List.findSome?_append, hp]
  rfl

theorem valueAt_changes (t : Nat) (p : Probe) (value : Option Nat) (changes : List (Probe × Nat))
    (rest : List Entry) :
    valueAt t p.code.toList value
        (changes.map (fun (q, new) => .change q.code.toList new) ++ rest) =
      valueAt t p.code.toList (p.after value changes) rest := by
  induction changes generalizing value with
  | nil => rfl
  | cons c changes ih =>
    have hcode : c.1.code.toList = p.code.toList ↔ c.1 = p :=
      ⟨fun h => Probe.code_injective (String.toList_inj.mp h), fun h => by rw [h]⟩
    rw [List.map_cons, List.cons_append, valueAt, ih]
    simp only [hcode]
    rfl

/-- A reader stops at the first later block, and all that follow are later still. -/
theorem valueAt_blocks (hrising : (blocks.map (·.fs)).Pairwise (· < ·)) (t : Nat) (p : Probe)
    (value : Option Nat) :
    valueAt t p.code.toList value (blocks.flatMap Block.entries) =
      p.after value (madeBy t blocks) := by
  induction blocks generalizing value with
  | nil => rfl
  | cons b rest ih =>
    obtain ⟨hlater, hrest⟩ := List.pairwise_cons.mp hrising
    rw [List.flatMap_cons, Block.entries, List.cons_append, valueAt, madeBy]
    by_cases hb : b.fs ≤ t
    · rw [if_pos hb, valueAt_changes, ih hrest, List.filter_cons_of_pos (by simpa using hb),
        List.flatMap_cons, Probe.after_append, madeBy]
    · have hnone : (b :: rest).filter (·.fs ≤ t) = [] := by
        refine List.filter_eq_nil_iff.mpr fun a ha => ?_
        rcases List.mem_cons.mp ha with rfl | hmem
        · simpa using hb
        · have hlt : b.fs < a.fs := hlater _ (List.mem_map_of_mem hmem)
          simp
          omega
      rw [if_neg hb, hnone]
      rfl

end Text

/-- What the text of a recording is to be, when the probes have shown the moments of a history. -/
structure Faithful (history : List Moment) (text : String) : Prop where
  laidOut : ∃ blocks : List Block,
    text = page (header ++ valueStart ++ blocks.flatMap Block.lines) ∧
      (blocks.map (·.fs)).Pairwise (· < ·) ∧
      ∀ b ∈ blocks, b.changes ≠ [] ∧ ∀ c ∈ b.changes, ValueLine (c.1.line c.2).text
  closedOnce : (pieces '\n' text.toList).count "$enddefinitions $end".toList = 1
  codes : ∀ p q : Probe, p.code = q.code → p = q
  replays : ∀ (t : Nat) (p : Probe),
    replay text p.name t = (lastUpTo t history).map (·.value p)

theorem Shows.faithful {history : List Moment} {blocks : List Block} {r : Recording}
    (h : Shows history blocks r) (hne : history ≠ []) : Faithful history r.dump.text := by
  have hfull := h.written.full
  rw [h.text_eq hne]
  refine ⟨⟨blocks, rfl, h.written.rising, fun b hb => ?_⟩, ?_, fun _ _ => Probe.code_injective,
    fun t p => ?_⟩
  · exact ⟨(hfull b hb).1, fun c hc => valueLine_line ((hfull b hb).2 c hc)⟩
  · have hheader :
        ((header ++ valueStart).map String.toList).count "$enddefinitions $end".toList = 1 := by
      decide +kernel
    have hblocks :
        "$enddefinitions $end".toList ∉ (blocks.flatMap Block.lines).map String.toList := by
      intro hmem
      obtain ⟨line, hline, heq⟩ := List.mem_map.mp hmem
      obtain ⟨b, hb, hin⟩ := List.mem_flatMap.mp hline
      refine (Block.isPlain_lines (hfull b hb) hin).2 ?_
      rw [heq]
      rfl
    rw [pieces_written hfull, List.map_append, List.count_append, hheader,
      List.count_eq_zero.mpr hblocks]
  · rw [replay, entries_written hfull, codeOf_declared]
    show valueAt t p.code.toList none (blocks.flatMap Block.entries) = _
    rw [valueAt_blocks h.written.rising, h.after_eq]

end LinkBridge.Waveform
