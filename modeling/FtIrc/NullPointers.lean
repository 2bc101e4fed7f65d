import FtIrc.Reach

/-!
# Null pointers

The only steps of the server that use a null `Ch*` or `Cli*` are commands that are not `CmdSafe`
(`step_null`), so a run all of whose commands are `CmdSafe` never does (`null_iff`).

No step reads beyond the arguments of a command, or the first character of an empty string
(`args_in_range`).
-/

namespace FtIrc

open Std Outcome Server

variable {s : Server} {x : Ptr} {cfg : Config} {i : Input} {f : Fault} {pass : Str} {lfd fd : Nat}
  {r : Revents} {todo : List (Nat × Revents)}

theorem liftFault_bind_error {α β : Type} {e : Except Fault α} {g : α → Except Halt β}
    (h : (liftFault e >>= g) = .error (.fault f)) :
    e = .error f ∨ ∃ a, e = .ok a ∧ g a = .error (.fault f) := by
  cases e with
  | error f' => cases h; exact .inl rfl
  | ok a => exact .inr ⟨a, rfl, h⟩

theorem cliOfFd_error (h : s.cliOfFd fd = .error f) : ¬ f.isNull := by
  unfold cliOfFd at h
  split at h
  · cases h
  · cases h
    rintro (h | h | h) <;> cases h

/-- The only fault there can be at an event is that of `clis.at`. -/
theorem cliOfFd_of_event (hI : Inv s)
    (h : step ⟨s, .events ((fd, r) :: todo)⟩ i = .error (.fault f)) :
    s.cliOfFd fd = .error f ∧ (r.pollin = true ∧ fd ≠ s.fdForNewClis ∨ r.pollin = false ∧ r.pollout = true) := by
  have hlive : ∀ {x}, s.cliOfFd fd = .ok x → ∃ c, s.cliAt x = some c := by
    intro x hx
    obtain ⟨c, hc, rfl⟩ := cliOfFd_ok hx
    exact ⟨c, cliAt_of_clis hI hc⟩
  unfold step at h
  simp only at h
  split at h
  · split at h
    · cases h
    · split at h <;> cases h
    · cases h
  · rename_i hno
    split at h
    · rename_i hin
      rcases liftFault_bind_error h with he | ⟨x, hx, h⟩
      · exact ⟨he, .inl ⟨hin, fun hfd => hno ⟨hin, hfd⟩⟩⟩
      obtain ⟨c, hc⟩ := hlive hx
      split at h
      · cases h
      · rcases liftFault_bind_error h with he | ⟨d, -, h⟩
        · rw [deref_of_cliAt hI hc] at he
          cases he
        · cases h
      · split at h
        · rcases liftFault_bind_error h with he | ⟨_, -, h⟩
          · rw [receiveBuf_ok hI hc] at he
            cases he
          · cases h
        · cases h
      · cases h
    · rename_i hin
      split at h
      · rename_i hout
        rcases liftFault_bind_error h with he | ⟨x, hx, h⟩
        · exact ⟨he, .inr ⟨by simpa using hin, hout⟩⟩
        obtain ⟨c, hc⟩ := hlive hx
        rcases liftFault_bind_error h with he | ⟨d, -, h⟩
        · rw [deref_of_cliAt hI hc] at he
          cases he
        split at h
        · split at h
          · rcases liftFault_bind_error h with he | ⟨_, -, h⟩
            · rw [sendPreparedResps_eq hI hc] at he
              cases he
            · cases h
          · cases h
        · cases h
      · split at h <;> cases h

/-- The server stands at a command that is not `CmdSafe`. -/
def AtUnsafe (cfg : Config) : Prop :=
  ∃ x line lines todo, cfg.phase = .cmds x (line :: lines) todo ∧
    ¬ CmdSafe cfg.srv x (splitCmdToArgs line)

/-- Where a step fails: at `clis.at`, or at a command that is not `CmdSafe`. -/
theorem step_fault (hg : Good cfg) (h : step cfg i = .error (.fault f)) :
    (f.isNull ∧ AtUnsafe cfg) ∨ ∃ fd r todo, cfg.phase = .events ((fd, r) :: todo) ∧
      cfg.srv.cliOfFd fd = .error f ∧
        (r.pollin = true ∧ fd ≠ cfg.srv.fdForNewClis ∨ r.pollin = false ∧ r.pollout = true) := by
  obtain ⟨s, phase⟩ := cfg
  obtain ⟨hI, hT, hauthor, -⟩ := hg
  cases phase with
  | clis =>
    cases i with
    | next =>
      obtain ⟨s', hs, -⟩ := eraseUnusedClis_good hI hT
      rcases liftFault_bind_error h with he | ⟨_, -, h⟩
      · rw [hs] at he
        cases he
      · cases h
    | _ => cases h
  | chs =>
    cases i with
    | next =>
      rcases liftFault_bind_error h with he | ⟨_, -, h⟩
      · rw [eraseUnusedChs_ok hI] at he
        cases he
      · cases h
    | _ => cases h
  | mark => cases i <;> cases h
  | poll =>
    cases i with
    | poll rs =>
      unfold step at h
      simp only at h
      split at h <;> cases h
    | _ => cases h
  | events todo =>
    cases todo with
    | nil => cases i <;> cases h
    | cons e todo => exact .inr ⟨e.1, e.2, todo, rfl, cliOfFd_of_event hI h⟩
  | cmds x lines todo =>
    cases lines with
    | nil => cases i <;> cases h
    | cons line lines =>
      cases i with
      | next =>
        obtain ⟨⟨c, hc⟩, -⟩ := hauthor x (line :: lines) todo rfl
        rcases liftFault_bind_error h with he | ⟨_, -, h⟩
        · rcases execLine_spec hI hc line with ⟨-, s', hs, -⟩ | ⟨hno, g, hg, hnull⟩
          · rw [hs] at he
            cases he
          · rw [hg] at he
            cases he
            exact .inl ⟨hnull, x, line, lines, todo, rfl, hno⟩
        · cases h
      | _ => cases h

/-- **A null pointer is only used by a command that is not `CmdSafe`.** -/
theorem step_null (hg : Good cfg) (h : step cfg i = .error (.fault f)) (hf : f.isNull) :
    AtUnsafe cfg := by
  rcases step_fault hg h with ⟨-, hat⟩ | ⟨fd, r, todo, -, he, -⟩
  · exact hat
  · exact absurd hf (cliOfFd_error he)

/-- **When a command uses a null pointer**: in a reachable state, exactly if it is not `CmdSafe`; so
a run whose commands are all `CmdSafe` never stops at a null pointer. -/
theorem null_iff (pass : Str) (lfd : Nat) :
    (∀ cfg, Reachable pass lfd cfg → ∀ x c, cfg.srv.cliAt x = some c → ∀ line : Str,
      (∃ f, cfg.srv.execCmd x (splitCmdToArgs line) = .error f ∧ f.isNull) ↔
        ¬ CmdSafe cfg.srv x (splitCmdToArgs line)) ∧
    ∀ is, Runs.Along step (fun cfg _ => ¬ AtUnsafe cfg) is (start pass lfd) →
      ∀ f : Fault, f.isNull → runServer pass lfd is ≠ .error (.fault f) := by
  refine ⟨fun cfg hr x c hc line => ?_, fun is hsafe f hf hrun => ?_⟩
  · have hmid : Mid cfg.srv x (splitCmdToArgs line) c cfg.srv := .refl hr.good.inv hc
    exact (execCmd_line hmid).fails_iff
  · obtain ⟨js, i, ks, cfg, rfl, hjs, hstep⟩ := Runs.run_error is _ hrun
    exact (Runs.along_append hsafe hjs).2.1 (step_null (Reachable.good ⟨js, hjs⟩) hstep hf)

/-- The line of a client on `#foo` that is run below. -/
theorem exists_null : ∃ cfg c, runServer (str "2") 3
      (connect 0 alice ++ say 0 0 4 (register "al" ++ str "JOIN #foo\r\n")) = .ok cfg ∧
    cfg.srv.cliAt alice.addr = some c ∧
    cfg.srv.execCmd alice.addr (splitCmdToArgs (str "JOIN #FOO")) = .error .nullChStored := by
  obtain ⟨cfg, hrun, hP⟩ := exists_run (str "2") 3
    (connect 0 alice ++ say 0 0 4 (register "al" ++ str "JOIN #foo\r\n"))
    (fun cfg => (cfg.srv.cliAt alice.addr).isSome &&
      match cfg.srv.execCmd alice.addr (splitCmdToArgs (str "JOIN #FOO")) with
      | .error .nullChStored => true
      | _ => false) (by decide +kernel)
  rw [Bool.and_eq_true, Option.isSome_iff_exists] at hP
  obtain ⟨⟨c, hc⟩, hP⟩ := hP
  split at hP
  · rename_i hexec
    exact ⟨cfg, c, hrun, hc, hexec⟩
  · cases hP

/-- `JOIN #FOO` is not safe for a client on `#foo`. -/
theorem null_iff_join : ∃ cfg, runServer (str "2") 3
      (connect 0 alice ++ say 0 0 4 (register "al" ++ str "JOIN #foo\r\n")) = .ok cfg ∧
    ¬ CmdSafe cfg.srv alice.addr (splitCmdToArgs (str "JOIN #FOO")) := by
  obtain ⟨cfg, c, hrun, hc, hexec⟩ := exists_null
  exact ⟨cfg, hrun, ((null_iff _ _).1 cfg ⟨_, hrun⟩ _ c hc (str "JOIN #FOO")).mp
    ⟨_, hexec, .inr (.inl rfl)⟩⟩

/-- A client on `#foo` stores a null `Ch*` by `JOIN #FOO`. -/
theorem null_reachable : ¬ ∀ (pass : Str) (lfd : Nat) (cfg : Config), Reachable pass lfd cfg →
    ∀ (x : Ptr) (c : Cli), cfg.srv.cliAt x = some c → ∀ (line : Str) (f : Fault),
      cfg.srv.execCmd x (splitCmdToArgs line) = .error f → ¬ f.isNull := by
  intro hall
  obtain ⟨cfg, c, hrun, hc, hexec⟩ := exists_null
  exact hall _ _ cfg ⟨_, hrun⟩ _ c hc _ _ hexec (.inr (.inl rfl))

/-! ## Arguments -/

/-- The misuses of the argument vector: `ar[k]` with `k >= ar.size()`, and `s[0]` of an empty `s`. -/
def Fault.isIndex (f : Fault) : Prop := f = .argRange ∨ f = .emptyStr

theorem Fault.isNull.not_isIndex (hf : f.isNull) : ¬ f.isIndex := by
  rintro (rfl | rfl) <;> rcases hf with h | h | h <;> cases h

theorem cliOfFd_not_index (h : s.cliOfFd fd = .error f) : ¬ f.isIndex := by
  unfold cliOfFd at h
  split at h
  · cases h
  · cases h
    rintro (h | h) <;> cases h

/-- The only faults of a command are null pointers. -/
theorem execCmd_not_index (hI : Inv s) {c : Cli} (hc : s.cliAt x = some c) {line : Str}
    (h : s.execCmd x (splitCmdToArgs line) = .error f) : ¬ f.isIndex := by
  rcases execCmd_line (.refl hI hc) with ⟨-, s', hs, -⟩ | ⟨-, g, hg, hnull⟩
  · rw [h] at hs
    cases hs
  · rw [h] at hg
    cases hg
    exact hnull.not_isIndex

theorem step_not_index (hg : Good cfg) (h : step cfg i = .error (.fault f)) : ¬ f.isIndex := by
  rcases step_fault hg h with ⟨hnull, -⟩ | ⟨fd, r, todo, -, he, -⟩
  · exact hnull.not_isIndex
  · exact cliOfFd_not_index he

/-- **Every argument read is there.**  The parts a line and an argument are cut into are not empty;
no command, given by any line to any client of a reachable state, reads an argument that is not
there or the first character of an empty string; and so no run does. -/
theorem args_in_range (pass : Str) (lfd : Nat) :
    (∀ line a, a ∈ splitCmdToArgs line → a ≠ []) ∧ (∀ a t, t ∈ splitArgToSubargs a → t ≠ []) ∧
    (∀ cfg, Reachable pass lfd cfg → ∀ x c, cfg.srv.cliAt x = some c → ∀ (line : Str) (f : Fault),
      cfg.srv.execCmd x (splitCmdToArgs line) = .error f → ¬ f.isIndex) ∧
    ∀ (is : List Input) (f : Fault), runServer pass lfd is = .error (.fault f) → ¬ f.isIndex := by
  refine ⟨fun line a ha => (splitCmdToArgs_arg ha).1, fun a t ht => (splitArgToSubargs_part ht).1,
    fun cfg hr x c hc line f h => execCmd_not_index hr.good.inv hc h, fun is f h => ?_⟩
  obtain ⟨js, i, ks, cfg, rfl, hjs, hstep⟩ := Runs.run_error is _ h
  exact step_not_index (Reachable.good ⟨js, hjs⟩) hstep

/-- `MODE #foo -i +l`: the option that needs `ar[3]` stands there itself. -/
theorem args_in_range_mode : ∃ cfg c, runServer (str "2") 3
      (connect 0 alice ++ say 0 0 4 (register "al" ++ str "JOIN #foo\r\n")) = .ok cfg ∧
    cfg.srv.cliAt alice.addr = some c ∧
    ∀ f, cfg.srv.execCmd alice.addr (splitCmdToArgs (str "MODE #foo -i +l")) = .error f →
      f ≠ .argRange := by
  obtain ⟨cfg, c, hrun, hc, -⟩ := exists_null
  refine ⟨cfg, c, hrun, hc, fun f hf hrange => ?_⟩
  exact (args_in_range _ _).2.2.1 cfg ⟨_, hrun⟩ _ c hc _ f hf (.inl hrange)

end FtIrc
