import LinkBridge.CommandLine.FileTree
import LinkBridge.CommandLine.Program
import LinkBridge.Proofs.Config.Resolve
import LinkBridge.Proofs.Duration

/-!
The dwell of a scan.

A configuration is checked before it is used, but of its dwell only that it says something.  It is
read as a duration when a scan begins.  So a scan that is given no dwell of its own fails over the
configured one exactly if that is no duration, however the configuration came to be loaded
(`scan_fails_over_dwell_iff`).
-/

namespace LinkBridge.CommandLine.Program

variable {options : GlobalOptions} {direction : Direction} {o : ScanOptions}
  {loaded : LoadedConfig} {tree tree' : FileTree}

/-! ### Loading -/

section Stateful

variable {σ ε α β : Type}

theorem run_bind (x : ExceptT ε (StateM σ) α) (f : α → ExceptT ε (StateM σ) β) (s : σ) :
    (x >>= f).run s =
      match x.run s with
      | (.ok a, s') => (f a).run s'
      | (.error e, s') => (.error e, s') := by
  rw [ExceptT.run_bind]
  show (match x.run s with
    | (r, s') =>
      (match r with
        | .ok a => (f a).run
        | .error e => pure (.error e) : StateM σ (Except ε β)) s') = _
  rcases x.run s with ⟨e | a, s'⟩
  · rfl
  · rfl

theorem run_lift_bind (x : Except ε α) (f : α → ExceptT ε (StateM σ) β) (s : σ) :
    (liftM x >>= f).run s =
      match x with
      | .ok a => (f a).run s
      | .error e => (.error e, s) := by
  rw [run_bind]
  cases x with
  | error e => rfl
  | ok a => rfl

/-- Both parts of a computation that succeeds have succeeded. -/
theorem run_bind_eq_ok {x : ExceptT ε (StateM σ) α} {f : α → ExceptT ε (StateM σ) β} {s s' : σ}
    {b : β} (h : (x >>= f).run s = (.ok b, s')) :
    ∃ a s'', x.run s = (.ok a, s'') ∧ (f a).run s'' = (.ok b, s') := by
  rw [run_bind] at h
  split at h
  · rename_i a s'' hx
    exact ⟨a, s'', hx, h⟩
  · exact nomatch (Prod.mk.inj h).1

theorem eq_of_run_pure {a b : α} {s s' : σ}
    (h : (pure a : ExceptT ε (StateM σ) α).run s = (.ok b, s')) : a = b :=
  Except.ok.inj (Prod.mk.inj h).1

theorem eq_of_run_lift {x : Except ε α} {b : α} {s s' : σ}
    (h : (liftM x : ExceptT ε (StateM σ) α).run s = (.ok b, s')) : x = .ok b :=
  (Prod.mk.inj h).1

/-- A result is there, and it is as tested. -/
theorem exists_ok_of_any {x : Except ε α} {p : α → Bool} (h : x.toOption.any p = true) :
    ∃ a, x = .ok a ∧ p a = true := by
  cases x with
  | error e => exact nomatch h
  | ok a => exact ⟨a, rfl, h⟩

end Stateful

/-- Whatever is loaded has passed its check, the text of a file as well as the default. -/
theorem check_of_load (h : (load FileTree.files options).run tree = (.ok loaded, tree')) :
    loaded.config.check = .ok () := by
  unfold load at h
  obtain ⟨path, _, -, h⟩ := run_bind_eq_ok h
  cases path with
  | none =>
    obtain ⟨config, _, hconfig, h⟩ := run_bind_eq_ok h
    obtain ⟨params, _, -, h⟩ := run_bind_eq_ok h
    obtain rfl := eq_of_run_pure h
    obtain rfl := eq_of_run_pure hconfig
    exact LinkConfig.check_default
  | some path =>
    obtain ⟨text, _, -, h⟩ := run_bind_eq_ok h
    obtain ⟨config, _, hconfig, h⟩ := run_bind_eq_ok h
    obtain ⟨params, _, -, h⟩ := run_bind_eq_ok h
    obtain rfl := eq_of_run_pure h
    exact LinkConfig.check_of_load (mapError_eq_ok.mp (eq_of_run_lift hconfig))

/-! ### Scanning -/

theorem exists_of_mapError {ε ε' α : Type} {f : ε → ε'} {x : Except ε α} {e : ε'}
    (h : x.mapError f = .error e) : ∃ cause, e = f cause := by
  cases x with
  | error cause => exact ⟨cause, (Except.error.inj h).symm⟩
  | ok a => exact nomatch h

theorem exists_of_tapOr {tap : Option Nat} {other : DelayTap} {e : ProgramError}
    (h : tapOr tap other = .error e) : ∃ cause, e = .tap cause := by
  cases tap with
  | none => exact nomatch h
  | some n => exact exists_of_mapError h

section Scanning

variable (hload : (load FileTree.files options).run tree = (.ok loaded, tree'))
include hload

theorem runScan_of_unread {cause : DurationError}
    (hread : Duration.read (o.dwell.getD loaded.config.dwell) = .error cause) :
    (runScan FileTree.files options direction o).run tree = (.error (.duration cause), tree') := by
  have hduration : readDuration (o.dwell.getD loaded.config.dwell) = .error (.duration cause) := by
    rw [readDuration, hread]
    rfl
  unfold runScan
  rw [run_bind, hload]
  simp only [run_lift_bind, hduration]

theorem runScan_of_read {dwell : Time}
    (hread : Duration.read (o.dwell.getD loaded.config.dwell) = .ok dwell) (cause : DurationError) :
    ((runScan FileTree.files options direction o).run tree).1 ≠ .error (.duration cause) := by
  have hduration : readDuration (o.dwell.getD loaded.config.dwell) = .ok dwell := by
    rw [readDuration, hread]
    rfl
  unfold runScan
  rw [run_bind, hload]
  simp only [run_lift_bind, hduration]
  -- what can still fail is a tap given on the command line, and the scan itself
  split
  · split
    · exact nofun
    · rename_i e hrun
      obtain ⟨failure, rfl⟩ := exists_of_mapError hrun
      exact nofun
  · rename_i e htap
    obtain ⟨failure, rfl⟩ := exists_of_tapOr htap
    exact nofun

end Scanning

/-- A configuration that passes its check has a dwell that is read as a duration exactly if it writes
one, and is never refused as empty.  Nothing else is asked of it: with any other dwell that says
something the configuration passes as well.  A scan has always loaded a configuration that passes
its check, and without a dwell of its own it fails over the dwell exactly if that writes no
duration. -/
theorem scan_fails_over_dwell_iff (c : LinkConfig) (hcheck : c.check = .ok ()) :
    ((∃ t, Duration.read c.dwell = .ok t) ↔ ∃ fs, Duration.Writes c.dwell.toList fs) ∧
    Duration.read c.dwell ≠ .error .empty ∧
    (∀ text : String, ({ c with dwell := text } : LinkConfig).check = .ok () ↔
      ∃ character ∈ text.toList, Text.isBlank character = false) ∧
    ∀ (options : GlobalOptions) (direction : Direction) (o : ScanOptions) (loaded : LoadedConfig)
      (tree tree' : FileTree), o.dwell = none →
      (load FileTree.files options).run tree = (.ok loaded, tree') →
      loaded.config.check = .ok () ∧
      ((∃ cause, ((runScan FileTree.files options direction o).run tree).1 =
          .error (.duration cause)) ↔
        ¬∃ fs, Duration.Writes loaded.config.dwell.toList fs) := by
  refine ⟨Duration.exists_read_iff, fun hempty => ?_, LinkConfig.check_withDwell_iff hcheck, ?_⟩
  · exact LinkConfig.trim_dwell_of_check hcheck (Duration.read_eq_empty_iff.mp hempty)
  · intro options direction o loaded tree tree' hdwell hload
    refine ⟨check_of_load hload, ?_⟩
    rw [← Duration.exists_read_iff]
    have hconfigured : o.dwell.getD loaded.config.dwell = loaded.config.dwell := by
      rw [hdwell]
      rfl
    cases hread : Duration.read loaded.config.dwell with
    | ok t =>
      rw [← hconfigured] at hread
      refine iff_of_false ?_ (not_not_intro ⟨t, rfl⟩)
      rintro ⟨cause, hfails⟩
      exact runScan_of_read hload hread cause hfails
    | error cause =>
      rw [← hconfigured] at hread
      refine iff_of_true ⟨cause, ?_⟩ nofun
      rw [runScan_of_unread hload hread]

/-- A directory with a configuration file whose dwell is no duration. -/
def wordyTree : FileTree := { nodes := [(["trxlink.toml"], .file "[scan]\ndwell = \"fast\"\n")] }

theorem read_fast : Duration.read "fast" = .error (.noNumber "fast") := rfl

theorem exists_load_wordyTree : ∃ loaded tree',
    (load FileTree.files {}).run wordyTree = (.ok loaded, tree') ∧
      loaded.config.dwell = "fast" := by
  have hloads : ((load FileTree.files {}).run wordyTree).1.toOption.any
      (·.config.dwell == "fast") = true := by decide +kernel
  obtain ⟨loaded, hok, hdwell⟩ := exists_ok_of_any hloads
  exact ⟨loaded, _, Prod.ext hok rfl, beq_iff_eq.mp hdwell⟩

/-- A scan over a configuration whose dwell is the word `fast`: it is loaded, and the scan fails. -/
theorem scan_fails_over_word :
    ∃ loaded tree', (load FileTree.files {}).run wordyTree = (.ok loaded, tree') ∧
      loaded.config.check = .ok () ∧
      (¬∃ fs, Duration.Writes loaded.config.dwell.toList fs) ∧
      ∃ cause, ((runScan FileTree.files {} .tx {}).run wordyTree).1 = .error (.duration cause) := by
  obtain ⟨loaded, tree', hload, hdwell⟩ := exists_load_wordyTree
  have hcheck := check_of_load hload
  obtain ⟨hread, -, -, hscan⟩ := scan_fails_over_dwell_iff loaded.config hcheck
  have hwrites : ¬∃ fs, Duration.Writes loaded.config.dwell.toList fs := by
    rw [← hread, hdwell, read_fast]
    exact nofun
  obtain ⟨-, hfails⟩ := hscan {} .tx {} loaded wordyTree tree' rfl hload
  exact ⟨loaded, tree', hload, hcheck, hwrites, hfails.mpr hwrites⟩

/-- A configuration that passes its check and whose dwell cannot be read.  A scan over it fails. -/
theorem unreadable_dwell_accepted :
    ∃ c, LinkConfig.load "[scan]\ndwell = \"fast\"\n" = .ok c ∧ c.check = .ok () ∧
      Duration.read c.dwell = .error (.noNumber "fast") := by
  have hloads : (LinkConfig.load "[scan]\ndwell = \"fast\"\n").toOption.any
      (·.dwell == "fast") = true := by decide +kernel
  obtain ⟨c, hload, hdwell⟩ := exists_ok_of_any hloads
  exact ⟨c, hload, LinkConfig.check_of_load hload, beq_iff_eq.mp hdwell ▸ read_fast⟩

end LinkBridge.CommandLine.Program
