import LinkBridge.Proofs.Waveform.Code
import LinkBridge.Proofs.Waveform.Reader

/-!
What a recording writes.

A recording keeps the last value written of each probe and writes only what differs from it.  Taken
together, what it has written up to an instant always leaves each probe at the value that it had
last, because the changes of a step stand behind all that were made before (`Extends`).
-/

namespace LinkBridge.Waveform

namespace Probe

def code (p : Probe) : String := String.ofList (Waveform.code p.id.toNat)

def signal (p : Probe) : Signal := { id := p.id, code := p.code, width := p.width }

/-- The line that gives a probe a value. -/
def line (p : Probe) (value : Nat) : Line :=
  if p.width = 1 then .bit (value % 2 = 1) p.code else .vector p.width value p.code

theorem mem_all (p : Probe) : p ∈ all := by
  cases p <;> decide

theorem code_injective {p q : Probe} (h : p.code = q.code) : p = q := by
  have hall : ∀ p ∈ all, ∀ q ∈ all, p.id = q.id → p = q := by decide
  have hid : p.id.toNat = q.id.toNat := Waveform.code_injective (String.ofList_inj.mp h)
  exact hall p p.mem_all q q.mem_all (UInt32.toNat_inj.mp hid)

theorem code_ne_nil (p : Probe) : p.code.toList ≠ [] := by
  rw [code, String.toList_ofList]
  exact Waveform.code_ne_nil _

/-- Codes are free of the characters that end them. -/
theorem not_mem_code (p : Probe) : ' ' ∉ p.code.toList ∧ '\n' ∉ p.code.toList := by
  have hfree : ∀ {c}, ¬ IsCodeChar c → c ∉ p.code.toList := by
    intro c hc hmem
    rw [code, String.toList_ofList] at hmem
    exact hc (isCodeChar_of_mem_code c hmem)
  exact ⟨hfree (by decide), hfree (by decide)⟩

theorem width_pos (p : Probe) : 0 < p.width := by
  cases p <;> decide

theorem sample_lt (b : Bridge) (running : Bool) (p : Probe) :
    p.sample b running < Nat.pow 2 p.width := by
  have hframe : ∀ s : LinkSample, s.frameBits.toNat < 4 := by
    intro s
    unfold LinkSample.frameBits
    cases s.frame0 <;> cases s.frame1 <;> decide
  cases p with
  | txData | rxData | patternErrors => exact UInt32.toNat_lt _
  | txFrame | rxFrame => exact hframe _
  | frameAligned | clockActive | clockRunning => exact Bool.toNat_lt _

end Probe

/-- A value line: the digit of a probe of one bit, or all digits of one that is wider. -/
inductive ValueLine : String → Prop where
  | bit (p : Probe) (value : Bool) (hwidth : p.width = 1) :
      ValueLine ((if value then "1" else "0") ++ p.code)
  | vector (p : Probe) (digits : String) (hwidth : p.width ≠ 1)
      (hdigits : ∀ c ∈ digits.toList, c = '0' ∨ c = '1')
      (hlength : digits.toList.length = p.width) :
      ValueLine ("b" ++ digits ++ " " ++ p.code)

section Lines

variable {p : Probe} {value : Nat}

theorem text_instant (fs : Nat) : (Line.instant fs).text = "#" ++ Digits.decimal fs := rfl

theorem toList_bit (value : Bool) (code : String) :
    (Line.bit value code).text.toList = (if value then '1' else '0') :: code.toList := by
  show ((if value then "1" else "0") ++ code).toList = _
  rw [String.toList_append]
  cases value <;> rfl

theorem toList_vector (width value : Nat) (code : String) :
    (Line.vector width value code).text.toList =
      'b' :: ((Digits.binary width value).toList ++ ' ' :: code.toList) := by
  show ("b" ++ Digits.binary width value ++ " " ++ code).toList = _
  simp

theorem valueLine_line (hvalue : value < Nat.pow 2 p.width) : ValueLine (p.line value).text := by
  unfold Probe.line
  split
  · next hwidth => exact .bit p _ hwidth
  · next hwidth =>
    exact .vector p _ hwidth (fun c hc => Digits.mem_binary hc)
      (Digits.length_binary p.width_pos hvalue)

/-- A value line is one line, and it does not look like a declaration. -/
theorem ValueLine.isPlain {line : String} (h : ValueLine line) :
    '\n' ∉ line.toList ∧ line.toList.head? ≠ some '$' := by
  cases h with
  | bit p value hwidth =>
    have hcode := p.not_mem_code.2
    cases value <;> simp [hcode]
  | vector p digits hwidth hdigits hlength =>
    have hcode := p.not_mem_code.2
    have hfree : '\n' ∉ digits.toList := by
      intro hmem
      rcases hdigits _ hmem with h | h <;> exact absurd h (by decide)
    simp [hcode, hfree]

theorem readLine_line (hvalue : value < Nat.pow 2 p.width) :
    readLine (p.line value).text.toList = .change p.code.toList value := by
  unfold Probe.line
  split
  · next hwidth =>
    rw [hwidth] at hvalue
    obtain rfl | rfl : value = 0 ∨ value = 1 := by
      have : value < 2 := hvalue
      omega
    · exact congrArg readLine (toList_bit false p.code)
    · exact congrArg readLine (toList_bit true p.code)
  · have hdigits : ' ' ∉ (Digits.binary p.width value).toList := by
      intro hmem
      rcases Digits.mem_binary hmem with h | h <;> exact absurd h (by decide)
    have hread : Digits.read? 2 (Digits.binary p.width value).toList = some value := by
      rw [Digits.binary, String.toList_ofList,
        Digits.read?_padLeft (Nat.le_refl 2) (by decide)]
    rw [toList_vector, readLine_vector hdigits p.not_mem_code.1 p.code_ne_nil hread]

end Lines

/-! ### Blocks of changes -/

/-- A time stamp and the changes under it. -/
structure Block where
  fs : Nat
  changes : List (Probe × Nat)
deriving DecidableEq, Repr

namespace Block

def lines (b : Block) : List String :=
  ("#" ++ Digits.decimal b.fs) :: b.changes.map fun (p, value) => (p.line value).text

/-- A block has changes, and their values fit their probes. -/
def Full (b : Block) : Prop := b.changes ≠ [] ∧ ∀ c ∈ b.changes, c.2 < Nat.pow 2 c.1.width

theorem full_singleton (fs : Nat) {p : Probe} {value : Nat} (h : value < Nat.pow 2 p.width) :
    (⟨fs, [(p, value)]⟩ : Block).Full :=
  ⟨List.cons_ne_nil _ _, List.forall_mem_singleton.mpr h⟩

theorem Full.concat {b : Block} (hb : b.Full) {p : Probe} {value : Nat}
    (h : value < Nat.pow 2 p.width) :
    ({ b with changes := b.changes ++ [(p, value)] } : Block).Full :=
  ⟨List.append_ne_nil_of_right_ne_nil _ (List.cons_ne_nil _ _),
    List.forall_mem_append.mpr ⟨hb.2, List.forall_mem_singleton.mpr h⟩⟩

theorem isPlain_lines {b : Block} (hb : b.Full) {line : String} (h : line ∈ b.lines) :
    '\n' ∉ line.toList ∧ line.toList.head? ≠ some '$' := by
  rcases List.mem_cons.mp h with rfl | hvalue
  · have hdigit : ∀ d < 10, '\n' ≠ Digits.ofValue d := by decide
    have hfree : '\n' ∉ Digits.render 10 b.fs := by
      intro hmem
      obtain ⟨d, hd, hnewline⟩ := Digits.mem_render (by decide) hmem
      exact hdigit d hd hnewline
    simp [Digits.decimal, hfree]
  · obtain ⟨c, hc, rfl⟩ := List.mem_map.mp hvalue
    exact (valueLine_line (hb.2 c hc)).isPlain

end Block

/-- All changes up to an instant. -/
def madeBy (t : Nat) (blocks : List Block) : List (Probe × Nat) :=
  (blocks.filter (·.fs ≤ t)).flatMap (·.changes)

/-- The declarations: what the dump is, and one scope with a variable for each probe. -/
def header : List String :=
  ["$version trxlink bridge simulator $end", "$timescale 1fs $end", "$scope module bridge $end"] ++
    Probe.all.map (fun p =>
      "$var wire " ++ Digits.decimal p.width ++ " " ++ p.code ++ " " ++ p.name ++ " $end") ++
    ["$upscope $end"]

/-- The lines between the declarations and the first time stamp. -/
def valueStart : List String := ["$enddefinitions $end", "$dumpvars"]

/-- A dump with some blocks, once its values are started. -/
structure Written (d : Dump) (blocks : List Block) : Prop where
  lines_eq : d.startChanges.lines.toList.map Line.text =
    header ++ valueStart ++ blocks.flatMap Block.lines
  time_eq : d.time = blocks.getLast?.map (·.fs)
  part_eq : blocks ≠ [] → d.part = .changes
  rising : (blocks.map (·.fs)).Pairwise (· < ·)
  full : ∀ b ∈ blocks, b.Full

/-- Blocks with some more changes at an instant that no block is past. -/
structure Extends (blocks : List Block) (fs : Nat) (changes : List (Probe × Nat))
    (more : List Block) : Prop where
  le : ∀ b ∈ more, b.fs ≤ fs
  madeBy_eq : ∀ t, madeBy t more = madeBy t blocks ++ if fs ≤ t then changes else []

namespace Extends

variable {blocks more most : List Block} {fs : Nat} {changes later : List (Probe × Nat)}

theorem refl (h : ∀ b ∈ blocks, b.fs ≤ fs) : Extends blocks fs [] blocks :=
  ⟨h, fun t => by rw [ite_self, List.append_nil]⟩

theorem trans (h : Extends blocks fs changes more) (hmore : Extends more fs later most) :
    Extends blocks fs (changes ++ later) most where
  le := hmore.le
  madeBy_eq t := by
    rw [hmore.madeBy_eq, h.madeBy_eq, List.append_assoc]
    split <;> rfl

theorem newBlock (h : ∀ b ∈ blocks, b.fs ≤ fs) (changes : List (Probe × Nat)) :
    Extends blocks fs changes (blocks ++ [⟨fs, changes⟩]) where
  le b hb := by
    rcases List.mem_append.mp hb with hold | hnew
    · exact h b hold
    · obtain rfl := List.mem_singleton.mp hnew
      exact Nat.le_refl fs
  madeBy_eq t := by
    unfold madeBy
    rw [List.filter_append, List.flatMap_append]
    split <;> simp [*]

theorem lastBlock {earlier : List Block} {b : Block} (h : ∀ a ∈ earlier ++ [b], a.fs ≤ b.fs)
    (changes : List (Probe × Nat)) :
    Extends (earlier ++ [b]) b.fs changes
      (earlier ++ [{ b with changes := b.changes ++ changes }]) where
  le a ha := by
    rcases List.mem_append.mp ha with hold | hnew
    · exact h a (List.mem_append_left _ hold)
    · obtain rfl := List.mem_singleton.mp hnew
      exact Nat.le_refl b.fs
  madeBy_eq t := by
    unfold madeBy
    rw [List.filter_append, List.filter_append, List.flatMap_append, List.flatMap_append,
      List.append_assoc]
    split <;> simp [*]

end Extends

namespace Written

variable {d : Dump} {blocks : List Block} {fs : Nat}

/-- Once the values are started, the part is not left again. -/
theorem part_startChanges (d : Dump) : d.startChanges.part = .changes := by
  unfold Dump.startChanges Dump.openChanges Dump.openDeclarations Dump.push
  cases hpart : d.part <;> simp [hpart]

theorem time_startChanges (d : Dump) : d.startChanges.time = d.time := by
  unfold Dump.startChanges Dump.openChanges Dump.openDeclarations Dump.push
  cases hpart : d.part <;> simp [hpart]

theorem startChanges_eq (h : d.part = .changes) : d.startChanges = d := if_pos h

theorem finish_eq (h : d.part = .changes) : d.finish = d := by
  unfold Dump.finish Dump.openChanges Dump.openDeclarations
  simp [h]

theorem write_eq (d : Dump) (fs : Nat) (p : Probe) (value : Nat) :
    d.write fs p.signal value = (d.startChanges.stamp fs).push (p.line value) := rfl

theorem lines_push (d : Dump) (line : Line) :
    (d.push line).lines.toList.map Line.text = d.lines.toList.map Line.text ++ [line.text] := by
  simp [Dump.push]

theorem part_write (d : Dump) (fs : Nat) (p : Probe) (value : Nat) :
    (d.write fs p.signal value).part = .changes := by
  rw [write_eq, ← part_startChanges d]
  simp only [Dump.stamp, Dump.push]
  split <;> rfl

/-- A new time stamp is later than all before. -/
theorem lt_of_time_ne (h : Written d blocks) (hle : ∀ b ∈ blocks, b.fs ≤ fs)
    (htime : d.time ≠ some fs) {b : Block} (hb : b ∈ blocks) : b.fs < fs := by
  cases hlast : blocks.getLast? with
  | none =>
    obtain rfl := List.getLast?_eq_none_iff.mp hlast
    exact absurd hb List.not_mem_nil
  | some last =>
    have hne : last.fs ≠ fs := by
      rintro rfl
      exact htime (by rw [h.time_eq, hlast]; rfl)
    obtain ⟨earlier, rfl⟩ := List.getLast?_eq_some_iff.mp hlast
    obtain ⟨-, hlast⟩ := List.forall_mem_append.mp hle
    have hlt := Nat.lt_of_le_of_ne (hlast last List.mem_cons_self) hne
    have hrising := h.rising
    rw [List.map_append, List.pairwise_append] at hrising
    rcases List.mem_append.mp hb with hearlier | hlast
    · exact Nat.lt_trans (hrising.2.2 _ (List.mem_map_of_mem hearlier) _ List.mem_cons_self) hlt
    · obtain rfl := List.mem_singleton.mp hlast
      exact hlt

/-- A change at the instant of the last block goes into it. -/
theorem write_again {earlier : List Block} {b : Block} (h : Written d (earlier ++ [b]))
    {p : Probe} {value : Nat} (hvalue : value < Nat.pow 2 p.width) :
    Written (d.write b.fs p.signal value)
      (earlier ++ [{ b with changes := b.changes ++ [(p, value)] }]) := by
  have htime : d.startChanges.time = some b.fs := by
    rw [time_startChanges, h.time_eq, List.getLast?_concat]
    rfl
  have hwrite : d.write b.fs p.signal value = d.startChanges.push (p.line value) := by
    rw [write_eq, Dump.stamp, if_pos htime]
  obtain ⟨hearlier, hfull⟩ := List.forall_mem_append.mp h.full
  refine ⟨?_, ?_, fun _ => part_write d b.fs p value, ?_, ?_⟩
  · rw [startChanges_eq (part_write d b.fs p value), hwrite, lines_push, h.lines_eq]
    simp [Block.lines]
  · rw [hwrite, List.getLast?_concat]
    exact htime
  · have hrising := h.rising
    rw [List.map_append] at hrising ⊢
    exact hrising
  · have hnow := (List.forall_mem_singleton.mp hfull).concat hvalue
    exact List.forall_mem_append.mpr ⟨hearlier, List.forall_mem_singleton.mpr hnow⟩

/-- A change at another instant begins a block. -/
theorem write_anew (h : Written d blocks) (hle : ∀ b ∈ blocks, b.fs ≤ fs)
    (htime : d.time ≠ some fs) {p : Probe} {value : Nat} (hvalue : value < Nat.pow 2 p.width) :
    Written (d.write fs p.signal value) (blocks ++ [⟨fs, [(p, value)]⟩]) := by
  have hwrite : d.write fs p.signal value =
      ({ d.startChanges.push (.instant fs) with time := some fs }).push (p.line value) := by
    rw [write_eq, Dump.stamp, time_startChanges, if_neg htime]
  refine ⟨?_, ?_, fun _ => part_write d fs p value, ?_, ?_⟩
  · rw [startChanges_eq (part_write d fs p value), hwrite, lines_push]
    show (d.startChanges.push (.instant fs)).lines.toList.map Line.text ++ _ = _
    rw [lines_push, h.lines_eq]
    simp [Block.lines, text_instant]
  · rw [hwrite, List.getLast?_concat]
    rfl
  · rw [List.map_append, List.pairwise_append]
    refine ⟨h.rising, List.pairwise_singleton _ _, fun a ha b hb => ?_⟩
    obtain ⟨old, hold, rfl⟩ := List.mem_map.mp ha
    obtain rfl := List.mem_singleton.mp hb
    exact h.lt_of_time_ne hle htime hold
  · have hnow := Block.full_singleton fs hvalue
    exact List.forall_mem_append.mpr ⟨h.full, List.forall_mem_singleton.mpr hnow⟩

theorem write (h : Written d blocks) (hle : ∀ b ∈ blocks, b.fs ≤ fs) {p : Probe} {value : Nat}
    (hvalue : value < Nat.pow 2 p.width) :
    ∃ more, Written (d.write fs p.signal value) more ∧ Extends blocks fs [(p, value)] more := by
  by_cases htime : d.time = some fs
  · obtain ⟨b, hlast, rfl⟩ := Option.map_eq_some_iff.mp (h.time_eq.symm.trans htime)
    obtain ⟨earlier, rfl⟩ := List.getLast?_eq_some_iff.mp hlast
    exact ⟨_, h.write_again hvalue, .lastBlock hle [(p, value)]⟩
  · exact ⟨_, h.write_anew hle htime hvalue, .newBlock hle [(p, value)]⟩

end Written

end LinkBridge.Waveform
