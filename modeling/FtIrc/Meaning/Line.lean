import FtIrc.Meaning.Command
import FtIrc.Reach

/-!
# What a line comes to

`execLine` is `execCmd` and an entry in the history of the author.
-/

namespace FtIrc

open Std Outcome Server

variable {s s' : Server} {x y : Ptr} {c d : Cli} {line : Str} {ar : List Str}

/-- A line goes well exactly if its command does. -/
theorem execLine_ok_iff (hI : Inv s) (hc : s.cliAt x = some c) :
    (∃ s', s.execLine x line = .ok s') ↔ CmdSafe s x (splitCmdToArgs line) := by
  have hspec := execLine_spec hI hc line
  constructor
  · rintro ⟨s', hs'⟩
    exact (hspec.of_ok hs').1
  · intro hs
    obtain ⟨s', hs', -⟩ := hspec.done_iff.mpr hs
    exact ⟨s', hs'⟩

/-- **What a line comes to.** -/
theorem execLine_run (hI : Inv s) (hc : s.cliAt x = some c) (h : s.execLine x line = .ok s') :
    ∃ u, s.execCmd x (splitCmdToArgs line) = .ok u ∧ s' = u.note x (splitCmdToArgs line) ∧
      u = (cmdRun s x c (splitCmdToArgs line)).1.sendAll (cmdRun s x c (splitCmdToArgs line)).2 ∧
      CmdSafe s x (splitCmdToArgs line) ∧ Steps s x (splitCmdToArgs line) u := by
  have hne : ∀ a ∈ splitCmdToArgs line, a ≠ [] := fun a ha => (splitCmdToArgs_arg ha).1
  unfold execLine at h
  cases hexec : s.execCmd x (splitCmdToArgs line) with
  | error f =>
    rw [hexec] at h
    cases h
  | ok u =>
    rw [hexec] at h
    cases h
    obtain ⟨hsafe, hu⟩ := execCmd_run hI hc hne hexec
    have hmid := (execCmd_line (.refl hI hc)).of_ok hexec
    exact ⟨u, rfl, rfl, hu, hsafe, hmid.2.steps⟩

/-- A line keeps the invariant. -/
theorem execLine_inv (hI : Inv s) (hc : s.cliAt x = some c) (h : s.execLine x line = .ok s') : Inv s' := by
  obtain ⟨u, -, rfl, -, -, hsteps⟩ := execLine_run hI hc h
  have hIu := (hsteps.inv hI).1
  obtain ⟨d, hd, -⟩ := hsteps.later_of hc
  unfold Server.note
  rw [updCli_const hIu hd]
  exact inv_updCli hIu hd ⟨rfl, rfl, id, .inl rfl⟩

/-- What a line appends to the send buffer of a client are the frames of the client's lines. -/
theorem execLine_inbox (hI : Inv s) (hc : s.cliAt x = some c) (h : s.execLine x line = .ok s')
    (hd : s.cliAt y = some d) :
    ∃ d', s'.cliAt y = some d' ∧
      d'.bufToSend = d.bufToSend ++ frames (inbox y (cmdRun s x c (splitCmdToArgs line)).2) ∧
      d'.hist.prepared = d.hist.prepared ++ inbox y (cmdRun s x c (splitCmdToArgs line)).2 := by
  obtain ⟨u, hexec, rfl, -⟩ := execLine_run hI hc h
  obtain ⟨d', hd', hbuf, hprep⟩ :=
    execCmd_inbox hI hc (fun a ha => (splitCmdToArgs_arg ha).1) hexec hd
  rw [cliAt_note, hd']
  split
  · exact ⟨_, rfl, hbuf, hprep⟩
  · exact ⟨d', rfl, hbuf, hprep⟩

/-- The commands that mark their author: `QUIT`, and a `PASS` with a wrong password. -/
def SignsOff (s : Server) (c : Cli) (ar : List Str) : Prop :=
  CmdIs ar "QUIT" ∨ (CmdIs ar "PASS" ∧ PassTaken ar c ∧ argD ar 1 ≠ s.pass)

/-- Other commands leave the marks alone. -/
theorem Steps.marks (hq : ¬ CmdIs ar "QUIT") (hp : ¬ CmdIs ar "PASS") (h : Steps s x ar s') :
    s'.fdsToErase = s.fdsToErase := by
  induction h with
  | refl => rfl
  | tail _ heff ih =>
    cases heff with
    | cli _ _ _ _ _ => exact ih
    | ch _ _ _ _ _ _ => exact ih
    | newCh _ _ _ _ _ _ _ => exact ih
    | mark _ _ hcmd => exact (hcmd.elim hq hp).elim

/-- **The marks after a line.** -/
theorem mem_fdsToErase_execLine (hI : Inv s) (hc : s.cliAt x = some c) (h : s.execLine x line = .ok s') :
    ∀ fd, fd ∈ s'.fdsToErase ↔
      fd ∈ s.fdsToErase ∨ (fd = c.fd ∧ SignsOff s c (splitCmdToArgs line)) := by
  intro fd
  obtain ⟨u, -, rfl, hu, -, hsteps⟩ := execLine_run hI hc h
  show fd ∈ u.fdsToErase ↔ _
  have hinsert : fd ∈ (s.markToErase c.fd).fdsToErase ↔ fd ∈ s.fdsToErase ∨ fd = c.fd := by
    unfold markToErase
    rw [ExtTreeSet.mem_insert, Std.compare_eq_iff_eq, or_comm, eq_comm]
  by_cases hq : CmdIs (splitCmdToArgs line) "QUIT"
  · rw [hu, cmdRun_quit hq, fdsToErase_sendAll, hinsert, and_iff_left (show SignsOff s c _ from .inl hq)]
  by_cases hp : CmdIs (splitCmdToArgs line) "PASS"
  · have hiff : SignsOff s c (splitCmdToArgs line) ↔
        PassTaken (splitCmdToArgs line) c ∧ argD (splitCmdToArgs line) 1 ≠ s.pass := by
      unfold SignsOff
      rw [or_iff_right hq, and_iff_right hp]
    rw [hu, cmdRun_pass hp, fdsToErase_sendAll, hiff]
    show fd ∈ (passMark s c (splitCmdToArgs line)).fdsToErase ↔ _
    unfold passMark
    split
    · rename_i hbad
      rw [hinsert, and_iff_left hbad]
    · rename_i hgood
      rw [or_iff_left fun hno => hgood hno.2]
  · rw [hsteps.marks hq hp, or_iff_left]
    rintro ⟨-, hq' | ⟨hp', -⟩⟩
    · exact hq hq'
    · exact hp hp'

end FtIrc
