import FtIrc.Inert
import FtIrc.Pruning

/-!
# Two commands in one buffer

`oneBuffer` and `twoBuffers` are what `run` makes of two commands of a client that arrive together, and of
two that arrive one after the other: between them are the cleanup of one iteration, the sending of what is
pending, and the cleanup of the next.  The channels are the same afterwards exactly if the first command
does not end the connection and the second one does not look up a channel that the first has left without
members (`batching_iff`).
-/

namespace FtIrc

open Std Outcome Server

namespace Server

/-- `receiveBufAndExecCmds(fd)`, when `recv` returns `chunk`. -/
def hear (s : Server) (fd : Nat) (chunk : Str) : Except Fault Server := do
  let cli ← s.cliOfFd fd
  let (s, lines) ← s.receiveBuf cli chunk
  Runs.run (fun s line => s.execLine cli line) lines s

/-- `eraseUnusedClis` and `eraseUnusedChs`. -/
def cleanup (s : Server) : Except Fault Server := do
  let s ← s.eraseUnusedClis
  let (s, _) ← s.eraseUnusedChs
  .ok s

/-- `sendPreparedResps(clis.at(fd))` where `POLLOUT` is asked for, when `send` takes everything. -/
def flush (s : Server) (fd : Nat) : Except Fault Server := do
  let cli ← s.cliOfFd fd
  let c ← s.deref cli
  if c.bufToSend = [] then .ok s else s.sendPreparedResps cli c.bufToSend.length

/-- One buffer, and the cleanup of the next iteration. -/
def oneBuffer (s : Server) (fd : Nat) (chunk : Str) : Except Fault Server := do
  let s ← s.hear fd chunk
  s.cleanup

/-- The cleanup, an iteration in which the clients `fds` are sent what is pending, and its cleanup. -/
def between (s : Server) (fds : List Nat) : Except Fault Server := do
  let s ← s.cleanup
  let s ← Runs.run flush fds s.markPollsToSendMsgsTo
  let s ← s.cleanup
  .ok s.markPollsToSendMsgsTo

/-- Two buffers in two iterations, and the cleanup of the next. -/
def twoBuffers (s : Server) (fd : Nat) (fds : List Nat) (chunk₁ chunk₂ : Str) : Except Fault Server := do
  let s ← s.hear fd chunk₁
  let s ← s.between fds
  let s ← s.hear fd chunk₂
  s.cleanup

end Server

variable {s s' u v : Server} {x p : Ptr} {c d : Cli} {a b line : Str} {ab ba bb chunk rest : Str}
  {lines : List Str} {fd lfd : Nat} {fds : List Nat} {pass : Str} {cfg : Config} {i : Input}
  {phase phase' : Phase}

/-! ## The marked clients wait -/

/-- To every marked client something is to be sent. -/
def Waiting (s : Server) : Prop := ∀ p c, s.cliAt p = some c → c.fd ∈ s.fdsToErase → c.bufToSend ≠ []

/-- Then none of them is removed. -/
theorem cleaned_of_waiting (hI : Inv s) (hw : Waiting s) :
    s.cleaned.clis = s.clis ∧ s.cleaned.chs = s.chs := by
  have hstay : ∀ (fd : Nat) (c : Cli), fd ∈ s.fdsToErase → s.clis[fd]? = some c → c.bufToSend ≠ [] := by
    intro fd c hm hc
    exact hw c.addr c (cliAt_of_clis hI hc) (by rw [hI.fd_eq fd c hc]; exact hm)
  constructor
  · refine ExtTreeMap.ext_getElem? fun fd => ?_
    rw [getElem?_clis_cleaned]
    split
    · rename_i hgone
      cases hc : s.clis[fd]? with
      | none => rfl
      | some c =>
        have hg := hgone.2
        unfold gone at hg
        rw [hc] at hg
        exact absurd (by simpa using hg) (hstay fd c hgone.1 hc)
    · rfl
  · refine ExtTreeMap.ext_getElem? fun k => ?_
    have hnone : s.leavers s.fdsToErase.toList = [] := by
      refine List.eq_nil_iff_forall_not_mem.mpr fun c hc => ?_
      obtain ⟨fd, hm, hc, hb⟩ := mem_leavers.mp hc
      exact hstay fd c (ExtTreeSet.mem_toList.mp hm) hc hb
    rw [getElem?_chs_cleaned, hnone]
    cases s.chs[k]? <;> rfl

theorem inv_cleaned (hI : Inv s) : Inv s.cleaned := by
  obtain ⟨s', hs', hI', -⟩ := eraseUnusedClis_done (P := fun _ => True) (fun _ _ _ _ _ _ => trivial)
    (fun _ _ _ _ _ _ _ => trivial) hI trivial
  rw [eraseUnusedClis_eq hI] at hs'
  cases hs'
  exact hI'

namespace Server

/-- The server after both cleanups. -/
def swept (s : Server) : Server := { s.cleaned with chs := s.cleaned.chs.filter fun _ ch => ch.size ≠ 0 }

theorem cleanup_eq (hI : Inv s) : s.cleanup = .ok s.swept := by
  unfold cleanup
  rw [eraseUnusedClis_eq hI]
  show (s.cleaned.eraseUnusedChs >>= _) = _
  rw [eraseUnusedChs_ok (inv_cleaned hI)]
  rfl

theorem getElem?_chs_swept (k : Str) : s.swept.chs[k]? = used s.cleaned.chs[k]? := by
  unfold swept used
  exact ExtTreeMap.getElem?_filter'

end Server

theorem inv_swept (hI : Inv s) : Inv s.swept :=
  inv_of_sub (inv_cleaned hI) fun _ _ hch =>
    (used_eq_some.mp ((ExtTreeMap.getElem?_filter' ..).symm.trans hch)).1

theorem clients_swept (hI : Inv s) (hw : Waiting s) : s.swept.clients = s.clients := by
  have hclis : s.swept.clis = s.clis := (cleaned_of_waiting hI hw).1
  unfold clients
  rw [hclis]

theorem cliAt_swept (hI : Inv s) (hw : Waiting s) : s.swept.cliAt p = s.cliAt p := by
  unfold Server.cliAt
  rw [clients_swept hI hw]

/-- **The cleanup, when the marked clients wait**: it removes the channels without members. -/
theorem pruned_swept (hI : Inv s) (hw : Waiting s) : Pruned s s.swept := by
  refine ⟨fun p => by rw [cliAt_swept hI hw], ?_, fun k => ?_⟩
  · unfold Server.getCli
    rw [clients_swept hI hw]
  · rw [getElem?_chs_swept, (cleaned_of_waiting hI hw).2]

theorem waiting_swept (hI : Inv s) (hw : Waiting s) : Waiting s.swept := by
  intro p c hc hm
  rw [cliAt_swept hI hw] at hc
  exact hw p c hc (mem_fdsToErase_cleaned.mp hm).1

/-- A line keeps the marked clients waiting. -/
theorem Waiting.execLine (hw : Waiting s) (hI : Inv s) (hc : s.cliAt x = some c) (hreg : c.registered = true)
    (h : s.execLine x line = .ok s') : Waiting s' := by
  intro p d' hd' hm
  obtain ⟨u, -, hs', -, -, hsteps⟩ := execLine_run hI hc h
  obtain ⟨d, hd, hfd⟩ : ∃ d, s.cliAt p = some d ∧ d'.fd = d.fd := by
    rw [hs', cliAt_note] at hd'
    split at hd'
    · obtain ⟨e, he, rfl⟩ := Option.map_eq_some_iff.mp hd'
      obtain ⟨d, hd, hlater⟩ := hsteps.earlier_of he
      exact ⟨d, hd, hlater.fd⟩
    · obtain ⟨d, hd, hlater⟩ := hsteps.earlier_of hd'
      exact ⟨d, hd, hlater.fd⟩
  obtain ⟨e, he, hbuf, -⟩ := execLine_inbox hI hc h hd
  rw [hd'] at he
  cases he
  rw [hbuf]
  intro hempty
  obtain ⟨hold, hnew⟩ := List.append_eq_nil_iff.mp hempty
  rcases (mem_fdsToErase_execLine hI hc h d'.fd).mp hm with hm | ⟨hfd', hoff⟩
  · exact hw p d hd (hfd ▸ hm) hold
  -- the author has just been marked, by `QUIT`
  have hpx : p = x := addr_eq_of_fd_eq hI hd hc (hfd.symm.trans hfd')
  subst hpx
  rcases hoff with hquit | ⟨-, htaken, -⟩
  · rw [cmdRun_quit hquit, frames_eq_nil, List.eq_nil_iff_forall_not_mem] at hnew
    refine hnew (quitLine d (quitText (splitCmdToArgs line))) (mem_inbox.mpr ?_)
    obtain ⟨hmem, haddr⟩ := cliAt_mem hd
    exact List.mem_map.mpr ⟨d, hmem, by rw [haddr]⟩
  · have hok := (Cli.registered_iff.mp hreg).1
    rw [htaken.1] at hok
    cases hok

/-! ## Sending what is pending -/

/-- The record after everything has been sent. -/
def Cli.flushed (c : Cli) : Cli := if c.bufToSend = [] then c else c.sent c.bufToSend.length

theorem bufToSend_flushed (c : Cli) : c.flushed.bufToSend = [] := by
  unfold Cli.flushed
  split
  · assumption
  · exact if_pos rfl

theorem core_flushed (c : Cli) : c.flushed.core = c.core := by
  unfold Cli.flushed
  split <;> rfl

theorem bufRecv_flushed (c : Cli) : c.flushed.bufRecv = c.bufRecv := by
  unfold Cli.flushed
  split <;> rfl

theorem core_fd (h : d.core = c.core) : d.fd = c.fd := show d.core.fd = c.core.fd from congrArg Cli.fd h

theorem flushed_flushed (c : Cli) : c.flushed.flushed = c.flushed := if_pos (bufToSend_flushed c)

/-- What `flush` leaves, for the clients `fds`. -/
structure Flushed (fds : List Nat) (s s' : Server) : Prop where
  inv : Inv s'
  chs : s'.chs = s.chs
  marks : s'.fdsToErase = s.fdsToErase
  getCli : s'.getCli = s.getCli
  cliAt : ∀ p, s'.cliAt p = (s.cliAt p).map fun c => if c.fd ∈ fds then c.flushed else c

theorem cliOfFd_of_cliAt (hI : Inv s) (hc : s.cliAt x = some c) : s.cliOfFd c.fd = .ok x := by
  unfold cliOfFd
  rw [clis_of_cliAt hI hc]
  exact congrArg Except.ok (cliAt_mem hc).2

theorem flush_eq (hI : Inv s) (hc : s.cliAt x = some c) : s.flush c.fd =
    if c.bufToSend = [] then .ok s else s.sendPreparedResps x c.bufToSend.length := by
  unfold Server.flush
  rw [cliOfFd_of_cliAt hI hc]
  show (s.deref x >>= _) = _
  rw [deref_of_cliAt hI hc]
  rfl

theorem flush_one (hI : Inv s) (hc : s.cliAt x = some c) :
    ∃ s', s.flush c.fd = .ok s' ∧ Flushed [c.fd] s s' := by
  have hother : ∀ p d, s.cliAt p = some d → (d.fd = c.fd ↔ p = x) := by
    intro p d hd
    constructor
    · exact fun h => addr_eq_of_fd_eq hI hd hc h
    · rintro rfl
      rw [hd] at hc
      cases hc
      rfl
  rw [flush_eq hI hc]
  by_cases hb : c.bufToSend = []
  · rw [if_pos hb]
    refine ⟨s, rfl, hI, rfl, rfl, rfl, fun p => ?_⟩
    cases hd : s.cliAt p with
    | none => rfl
    | some d =>
      rw [Option.map_some]
      split
      · rename_i hin
        have hpx := (hother p d hd).mp (List.mem_singleton.mp hin)
        rw [hpx, hc] at hd
        cases hd
        rw [Cli.flushed, if_pos hb]
      · rfl
  · rw [if_neg hb, sendPreparedResps_eq hI hc]
    have hI' : Inv (s.updCli x fun _ => c.sent c.bufToSend.length) := inv_updCli hI hc ⟨rfl, rfl, id, .inl rfl⟩
    refine ⟨_, rfl, inv_of_other hI' rfl rfl, rfl, rfl, ?_, fun p => ?_⟩
    · funext n
      exact getCli_put hI hc rfl rfl
    · show (s.updCli x fun _ => c.sent c.bufToSend.length).cliAt p = _
      rw [cliAt_put hc (show (c.sent c.bufToSend.length).addr = c.addr from rfl)]
      split
      · rename_i hp
        rw [hp, hc, Option.map_some, if_pos (List.mem_singleton.mpr rfl), Cli.flushed, if_neg hb]
      · rename_i hp
        cases hd : s.cliAt p with
        | none => rfl
        | some d =>
          rw [Option.map_some, if_neg]
          exact fun hin => hp ((hother p d hd).mp (List.mem_singleton.mp hin))

theorem flush_run : ∀ (fds : List Nat) (s : Server), Inv s →
    (∀ fd ∈ fds, ∃ p c, s.cliAt p = some c ∧ c.fd = fd) →
    ∃ s', Runs.run flush fds s = .ok s' ∧ Flushed fds s s'
  | [], s, hI, _ => by
    refine ⟨s, rfl, hI, rfl, rfl, rfl, fun p => ?_⟩
    cases s.cliAt p <;> rfl
  | fd :: fds, s, hI, hlive => by
    obtain ⟨x, c, hc, rfl⟩ := hlive fd (List.mem_cons_self ..)
    obtain ⟨t, ht, hone⟩ := flush_one hI hc
    have hfd : ∀ d : Cli, (if d.fd ∈ [c.fd] then d.flushed else d).fd = d.fd := fun d => by
      split
      · exact core_fd (core_flushed d)
      · rfl
    obtain ⟨s', hs', hrest⟩ := flush_run fds t hone.inv fun fd hfd' => by
      obtain ⟨p, d, hd, hdfd⟩ := hlive fd (List.mem_cons_of_mem _ hfd')
      exact ⟨p, _, by rw [hone.cliAt, hd]; rfl, (hfd d).trans hdfd⟩
    refine ⟨s', Runs.run_cons_ok.mpr ⟨t, ht, hs'⟩, hrest.inv, hrest.chs.trans hone.chs,
      hrest.marks.trans hone.marks, hrest.getCli.trans hone.getCli, fun p => ?_⟩
    rw [hrest.cliAt, hone.cliAt, Option.map_map]
    congr 1
    funext d
    show (if (if d.fd ∈ [c.fd] then d.flushed else d).fd ∈ fds then _ else _) = _
    rw [hfd]
    by_cases h1 : d.fd = c.fd
    · simp [h1, flushed_flushed]
    · simp [h1]

theorem Pruned.flushed (h : Pruned u v) (hf : Flushed fds v s') : Pruned u s' := by
  refine ⟨fun p => ?_, hf.getCli.trans h.getCli, fun k => by rw [hf.chs, h.chs]⟩
  rw [hf.cliAt, Option.map_map, ← h.cliAt]
  congr 1
  funext d
  show (if d.fd ∈ fds then d.flushed else d).core = _
  split
  · exact core_flushed d
  · rfl

theorem Pruned.swept (h : Pruned u v) (hI : Inv v) (hw : Waiting v) : Pruned u v.swept := by
  have hs := pruned_swept hI hw
  exact ⟨fun p => (hs.cliAt p).trans (h.cliAt p), hs.getCli.trans h.getCli,
    fun k => by rw [hs.chs, h.chs, used_used]⟩

/-! ## Receiving -/

/-- The server once a client's record has taken over what was received. -/
def Server.keepRest (s : Server) (x : Ptr) (c : Cli) (rest : Str) : Server :=
  s.updCli x fun _ => { c with bufRecv := rest }

theorem cliAt_keepRest (hc : s.cliAt x = some c) :
    (s.keepRest x c rest).cliAt p = if p = x then some { c with bufRecv := rest } else s.cliAt p :=
  cliAt_put hc rfl

theorem hear_ok (hI : Inv s) (hc : s.cliAt x = some c)
    (hcut : splitBufToCmds c.bufRecv (c.bufRecv ++ chunk) = (lines, rest)) :
    s.hear c.fd chunk = Runs.run (fun s line => s.execLine x line) lines
      (s.keepRest x c rest) := by
  unfold Server.hear
  rw [cliOfFd_of_cliAt hI hc]
  show (s.receiveBuf x chunk >>= _) = _
  rw [receiveBuf_ok hI hc, hcut]
  rfl

theorem hear_gone (hc : s.clis[fd]? = none) : ¬ ∃ s', s.hear fd chunk = .ok s' := by
  rintro ⟨s', hs'⟩
  unfold Server.hear cliOfFd at hs'
  rw [hc] at hs'
  cases hs'

theorem run_one (hcut : splitBufToCmds c.bufRecv (c.bufRecv ++ chunk) = ([a], rest)) (hI : Inv s)
    (hc : s.cliAt x = some c) :
    s.hear c.fd chunk = (s.keepRest x c rest).execLine x a := by
  rw [hear_ok hI hc hcut]
  unfold Runs.run
  cases (s.keepRest x c rest).execLine x a <;> rfl

/-- A record that has taken over what was received. -/
theorem received (hI : Inv s) (hw : Waiting s) (hc : s.cliAt x = some c) (rest : Str) :
    Inv (s.keepRest x c rest) ∧
      Waiting (s.keepRest x c rest) ∧
      (s.keepRest x c rest).cliAt x = some { c with bufRecv := rest } := by
  refine ⟨inv_updCli hI hc ⟨rfl, rfl, id, .inl rfl⟩, fun p d hd hm => ?_,
    by rw [cliAt_keepRest hc, if_pos rfl]⟩
  rw [cliAt_keepRest hc] at hd
  split at hd
  · cases hd
    exact hw x c hc hm
  · exact hw p d hd hm

/-! ## Between the buffers -/

/-- What is left when the first command has been executed. -/
structure After (s u : Server) (x : Ptr) (c d : Cli) (a : Str) : Prop where
  inv : Inv u
  waiting : Waiting u
  author : u.cliAt x = some d
  fd : d.fd = c.fd
  bufRecv : d.bufRecv = []
  registered : d.registered = true
  live : ∀ p e, s.cliAt p = some e → ∃ e', u.cliAt p = some e' ∧ e'.fd = e.fd
  marks : ∀ fd, fd ∈ u.fdsToErase → fd ∈ s.fdsToErase ∨ (fd = c.fd ∧ CmdIs (splitCmdToArgs a) "QUIT")
  quit : CmdIs (splitCmdToArgs a) "QUIT" → c.fd ∈ u.fdsToErase

theorem after_hear (hI : Inv s) (hw : Waiting s) (hc : s.cliAt x = some c) (hreg : c.registered = true)
    (hcut : splitBufToCmds c.bufRecv (c.bufRecv ++ chunk) = ([a], [])) (hu : s.hear c.fd chunk = .ok u) :
    ∃ d, After s u x c d a := by
  obtain ⟨hI₀, hw₀, hc₀⟩ := received hI hw hc []
  rw [run_one hcut hI hc] at hu
  have hmarks := mem_fdsToErase_execLine hI₀ hc₀ hu
  have hinv := execLine_inv hI₀ hc₀ hu
  have hwait := hw₀.execLine hI₀ hc₀ hreg hu
  obtain ⟨w, -, rfl, -, -, hsteps⟩ := execLine_run hI₀ hc₀ hu
  obtain ⟨e, he, hlater⟩ := hsteps.later_of hc₀
  have hauthor : (w.note x (splitCmdToArgs a)).cliAt x = _ := cliAt_note
  rw [if_pos rfl, he, Option.map_some] at hauthor
  refine ⟨_, hinv, hwait, hauthor, hlater.fd, hlater.bufRecv, hlater.registered hreg, fun p d hd => ?_,
    fun fd hfd => ?_, fun hq => (hmarks c.fd).mpr (.inr ⟨rfl, .inl hq⟩)⟩
  · obtain ⟨d₀, hd₀, hfd₀⟩ : ∃ d₀, (s.keepRest x c []).cliAt p = some d₀ ∧
        d₀.fd = d.fd := by
      rw [cliAt_keepRest hc]
      split
      · rename_i hp
        rw [hp, hc] at hd
        cases hd
        exact ⟨_, rfl, rfl⟩
      · exact ⟨d, hd, rfl⟩
    obtain ⟨d₁, hd₁, hlater₁⟩ := hsteps.later_of hd₀
    rw [cliAt_note, hd₁]
    split
    · exact ⟨_, rfl, hlater₁.fd.trans hfd₀⟩
    · exact ⟨d₁, rfl, hlater₁.fd.trans hfd₀⟩
  · refine ((hmarks fd).mp hfd).imp_right fun ⟨hfd', hoff⟩ => ⟨hfd', hoff.resolve_right ?_⟩
    rintro ⟨-, htaken, -⟩
    have hok := (Cli.registered_iff.mp hreg).1
    rw [htaken.1] at hok
    cases hok

section Between

variable (hu : After s u x c d a) (hx : c.fd ∈ fds)
  (hfds : ∀ fd ∈ fds, fd ≠ c.fd → (∃ p e, s.cliAt p = some e ∧ e.fd = fd) ∧ fd ∉ s.fdsToErase)

include hu hx hfds

/-- The sending of what is pending, after the first cleanup. -/
theorem flush_between : ∃ t, Runs.run flush fds u.swept.markPollsToSendMsgsTo = .ok t ∧
    Flushed fds u.swept.markPollsToSendMsgsTo t ∧ t.cliAt x = some d.flushed := by
  have hI : Inv u.swept.markPollsToSendMsgsTo := inv_of_other (inv_swept hu.inv) rfl rfl
  have hat : ∀ p, u.swept.markPollsToSendMsgsTo.cliAt p = u.cliAt p := fun p =>
    cliAt_swept hu.inv hu.waiting
  obtain ⟨t, ht, hflushed⟩ := flush_run fds _ hI fun fd hfd => by
    by_cases hfdc : fd = c.fd
    · exact ⟨x, d, (hat x).trans hu.author, hu.fd.trans hfdc.symm⟩
    · obtain ⟨⟨p, e, he, hefd⟩, -⟩ := hfds fd hfd hfdc
      obtain ⟨e', he', hfd'⟩ := hu.live p e he
      exact ⟨p, e', (hat p).trans he', hfd'.trans hefd⟩
  refine ⟨t, ht, hflushed, ?_⟩
  rw [hflushed.cliAt, hat, hu.author, Option.map_some, hu.fd, if_pos hx]

/-- The second buffer finds the channels with members, and its client. -/
theorem between_ok (hfree : c.fd ∉ s.fdsToErase) (hq : ¬ CmdIs (splitCmdToArgs a) "QUIT") :
    ∃ v e, u.between fds = .ok v ∧ Inv v ∧ Waiting v ∧ Pruned u v ∧ v.cliAt x = some e ∧ e.fd = c.fd ∧
      e.bufRecv = [] := by
  obtain ⟨t, ht, hflushed, hauthor⟩ := flush_between hu hx hfds
  have hfirst := pruned_swept hu.inv hu.waiting
  have hfirst' : Pruned u u.swept.markPollsToSendMsgsTo := ⟨hfirst.cliAt, hfirst.getCli, hfirst.chs⟩
  have hwt : Waiting t := by
    intro p e he hm
    rw [hflushed.cliAt] at he
    obtain ⟨e₀, he₀, heq⟩ := Option.map_eq_some_iff.mp he
    have hfd : e.fd = e₀.fd := by
      rw [← heq]
      split
      · exact core_fd (core_flushed e₀)
      · rfl
    rw [hflushed.marks, hfd] at hm
    -- a marked client was marked before, so it is not sent anything
    have hold : e₀.fd ∈ s.fdsToErase :=
      (hu.marks e₀.fd (mem_fdsToErase_cleaned.mp hm).1).resolve_right fun h => hq h.2
    have hout : e₀.fd ∉ fds := by
      intro hin
      by_cases hc : e₀.fd = c.fd
      · exact hfree (hc ▸ hold)
      · exact (hfds _ hin hc).2 hold
    rw [← heq, if_neg hout]
    exact waiting_swept hu.inv hu.waiting p e₀ he₀ hm
  have hsecond := (hfirst'.flushed hflushed).swept hflushed.inv hwt
  refine ⟨t.swept.markPollsToSendMsgsTo, d.flushed, ?_, inv_of_other (inv_swept hflushed.inv) rfl rfl,
    waiting_swept hflushed.inv hwt, ⟨hsecond.cliAt, hsecond.getCli, hsecond.chs⟩,
    (cliAt_swept hflushed.inv hwt).trans hauthor, (core_fd (core_flushed d)).trans hu.fd,
    (bufRecv_flushed d).trans hu.bufRecv⟩
  unfold Server.between
  rw [cleanup_eq hu.inv]
  show (Runs.run flush fds u.swept.markPollsToSendMsgsTo >>= _) = _
  rw [ht]
  show (t.cleanup >>= _) = _
  rw [cleanup_eq hflushed.inv]
  rfl

/-- After `QUIT` there is no client to receive from. -/
theorem between_quit (hq : CmdIs (splitCmdToArgs a) "QUIT") :
    ∃ v, u.between fds = .ok v ∧ v.clis[c.fd]? = none := by
  obtain ⟨t, ht, hflushed, hauthor⟩ := flush_between hu hx hfds
  refine ⟨t.swept.markPollsToSendMsgsTo, ?_, ?_⟩
  · unfold Server.between
    rw [cleanup_eq hu.inv]
    show (Runs.run flush fds u.swept.markPollsToSendMsgsTo >>= _) = _
    rw [ht]
    show (t.cleanup >>= _) = _
    rw [cleanup_eq hflushed.inv]
    rfl
  · have hpending := hu.waiting x d hu.author (hu.fd ▸ hu.quit hq)
    have hmark : c.fd ∈ t.fdsToErase := by
      rw [hflushed.marks]
      exact mem_fdsToErase_cleaned.mpr ⟨hu.quit hq, d, hu.fd ▸ clis_of_cliAt hu.inv hu.author, hpending⟩
    have hclis : t.clis[c.fd]? = some d.flushed := by
      have h := clis_of_cliAt hflushed.inv hauthor
      rw [core_fd (core_flushed d), hu.fd] at h
      exact h
    have hgone : t.gone c.fd = true := by
      unfold gone
      rw [hclis, Option.all_some, bufToSend_flushed, decide_eq_true rfl]
    show t.cleaned.clis[c.fd]? = none
    rw [getElem?_clis_cleaned, if_pos ⟨hmark, hgone⟩]

end Between

/-! ## At the call of poll -/

/-- Where `run` stands between the events: the marked clients wait, and at `poll` they are not read from. -/
def Phase.Waits (s : Server) : Phase → Prop
  | .chs | .mark => Waiting s
  | .poll => Waiting s ∧ ∀ fd ∈ s.fdsToErase, AsksOut s.polls fd
  | _ => True

theorem waiting_cleaned (hI : Inv s) : Waiting s.cleaned := by
  intro p c hc hm
  obtain ⟨hmark, d, hd, hb⟩ := mem_fdsToErase_cleaned.mp hm
  have hclis := clis_of_cliAt (inv_cleaned hI) hc
  rw [getElem?_clis_cleaned] at hclis
  split at hclis
  · cases hclis
  · rw [hd] at hclis
    cases hclis
    exact hb

theorem Move.waits (h : Move s phase i s' phase') (hg : Good ⟨s, phase⟩) (hw : Watched s)
    (hq : phase.Waits s) : phase'.Waits s' := by
  have hI : Inv s := hg.inv
  cases h with
  | clis s' hs =>
    rw [eraseUnusedClis_eq hI] at hs
    cases hs
    exact waiting_cleaned hI
  | chs s' freed hs =>
    rw [eraseUnusedChs_ok hI] at hs
    cases hs
    exact hq
  | mark =>
    have hwait : Waiting s := hq
    refine ⟨hwait, fun fd hfd => ?_⟩
    obtain ⟨c, hc⟩ := Option.isSome_iff_exists.mp (ExtTreeMap.mem_iff_isSome_getElem?.mp (hw.marked fd hfd))
    have hb := hwait c.addr c (cliAt_of_clis hI hc) (by rw [hI.fd_eq fd c hc]; exact hfd)
    exact asksOut_markPolls s.clis.toList s.polls hw.nodup
      (.inr ⟨c, ExtTreeMap.mem_toList_iff_getElem?_eq_some.mpr hc, hb⟩)
  | poll | again | acceptError | accept | recvError | recvClosed | recv | send | idle | done | cmd => trivial

theorem Reachable.waits (h : Reachable pass lfd cfg) : cfg.phase.Waits cfg.srv := by
  obtain ⟨is, his⟩ := h
  refine (Runs.run_invariant (I := fun cfg => Good cfg ∧ Watched cfg.srv ∧ cfg.phase.Waits cfg.srv)
    (fun cfg i cfg' hI hstep => ?_) is _ cfg ⟨good_start pass lfd, watched_start pass lfd, trivial⟩ his).2.2
  have hmove := move_of_step hstep
  exact ⟨good_step cfg i cfg' hI.1 hstep, hmove.watched hI.1 hI.2.1, hmove.waits hI.1 hI.2.1 hI.2.2⟩

/-! ## The two runs -/

theorem chs_swept_eq_iff (hI : Inv u) (hI' : Inv v) (hw : Waiting u) (hw' : Waiting v) :
    u.swept.chs = v.swept.chs ↔ SameUsed u v := by
  have hchs : ∀ (k : Str) (t : Server), Inv t → Waiting t → t.swept.chs[k]? = used t.chs[k]? := fun k t hI hw =>
    (pruned_swept hI hw).chs k
  constructor
  · intro h k
    rw [← hchs k u hI hw, ← hchs k v hI' hw', h]
  · exact fun h => ExtTreeMap.ext_getElem? fun k => by rw [hchs k u hI hw, hchs k v hI' hw', h k]

theorem chs_execLine (hI : Inv s) (hc : s.cliAt x = some c) (h : s.execLine x line = .ok s') :
    s'.chs = (cmdRun s x c (splitCmdToArgs line)).1.chs := by
  obtain ⟨u, -, rfl, rfl, -⟩ := execLine_run hI hc h
  rw [chs_note, chs_sendAll]

theorem Pruned.keepRest (h : Pruned u v) (hI : Inv v) (hd : v.cliAt x = some d) :
    Pruned u (v.keepRest x d rest) := by
  refine ⟨fun p => ?_, ?_, h.chs⟩
  · rw [cliAt_keepRest hd, ← h.cliAt]
    split
    · rename_i hp
      rw [hp, hd]
      rfl
    · rfl
  · rw [← h.getCli]
    funext n
    exact getCli_put hI hd rfl rfl

/-- **One line in both states**: it goes well and leaves the same channels with members exactly if it goes
well in the first, and looks up no channel without. -/
theorem line_iff (h : Pruned u v) (hI : Inv u) (hI' : Inv v) (hw : Waiting u) (hw' : Waiting v)
    (hc : u.cliAt x = some c) (hd : v.cliAt x = some d) (hreg : c.registered = true) :
    (∃ w z, u.execLine x line = .ok w ∧ v.execLine x line = .ok z ∧ w.swept.chs = z.swept.chs) ↔
      CmdSafe u x (splitCmdToArgs line) ∧ ¬ Rejoins u x (splitCmdToArgs line) := by
  have hcore : d.core = c.core := by
    obtain ⟨e, he, hcore⟩ := h.author hc
    rw [hd] at he
    cases he
    exact hcore
  have hreg' := (core_registered hcore).trans hreg
  have hiff : ∀ w z, u.execLine x line = .ok w → v.execLine x line = .ok z →
      (w.swept.chs = z.swept.chs ↔
        SameUsed (cmdRun u x c (splitCmdToArgs line)).1 (cmdRun v x d (splitCmdToArgs line)).1) := by
    intro w z hwl hzl
    rw [chs_swept_eq_iff (execLine_inv hI hc hwl) (execLine_inv hI' hd hzl) (hw.execLine hI hc hreg hwl)
      (hw'.execLine hI' hd hreg' hzl)]
    unfold SameUsed
    rw [chs_execLine hI hc hwl, chs_execLine hI' hd hzl]
  constructor
  · rintro ⟨w, z, hwl, hzl, heq⟩
    have hs := (execLine_ok_iff hI hc).mp ⟨w, hwl⟩
    have hs' := (execLine_ok_iff hI' hd).mp ⟨z, hzl⟩
    exact ⟨hs, fun hre => h.disagree hcore hI hc hI' hd hre hs hs' ((hiff w z hwl hzl).mp heq)⟩
  · rintro ⟨hs, hno⟩
    obtain ⟨w, hwl⟩ := (execLine_ok_iff hI hc).mpr hs
    obtain ⟨z, hzl⟩ := (execLine_ok_iff hI' hd).mpr (h.cmdSafe hcore hI hc hno hd hs)
    exact ⟨w, z, hwl, hzl, (hiff w z hwl hzl).mpr (h.cmdRun hcore hI hc hno hI' hd hs)⟩

theorem oneBuffer_iff (hI : Inv s) (hc : s.cliAt x = some c)
    (hab : splitBufToCmds c.bufRecv (c.bufRecv ++ ab) = ([a, b], []))
    (ha : splitBufToCmds c.bufRecv (c.bufRecv ++ ba) = ([a], [])) :
    s.oneBuffer c.fd ab = .ok s' ↔
      ∃ u w, s.hear c.fd ba = .ok u ∧ u.execLine x b = .ok w ∧ w.cleanup = .ok s' := by
  unfold Server.oneBuffer
  rw [hear_ok hI hc hab, run_one ha hI hc, bind_ok_iff]
  constructor
  · rintro ⟨w, hrun, hclean⟩
    obtain ⟨u, hu, hrest⟩ := Runs.run_cons_ok.mp hrun
    obtain ⟨w', hw, hlast⟩ := Runs.run_cons_ok.mp hrest
    cases hlast
    exact ⟨u, w, hu, hw, hclean⟩
  · rintro ⟨u, w, hu, hw, hclean⟩
    exact ⟨w, Runs.run_cons_ok.mpr ⟨u, hu, Runs.run_cons_ok.mpr ⟨w, hw, rfl⟩⟩, hclean⟩

theorem twoBuffers_iff : s.twoBuffers fd fds ba bb = .ok s' ↔
    ∃ u v z, s.hear fd ba = .ok u ∧ u.between fds = .ok v ∧ v.hear fd bb = .ok z ∧ z.cleanup = .ok s' := by
  unfold Server.twoBuffers
  simp only [bind_ok_iff, exists_and_left]

/-- The second buffer is received like the first. -/
theorem hear_second (h : Pruned u v) (hI : Inv v) (hw : Waiting v) (hd : v.cliAt x = some d)
    (hrecv : d.bufRecv = []) (hb : splitBufToCmds [] bb = ([b], [])) :
    ∃ t e, v.hear d.fd bb = t.execLine x b ∧ Pruned u t ∧ Inv t ∧ Waiting t ∧ t.cliAt x = some e := by
  have hcut : splitBufToCmds d.bufRecv (d.bufRecv ++ bb) = ([b], []) := by
    rw [hrecv]
    exact hb
  obtain ⟨hI', hw', he⟩ := received hI hw hd []
  exact ⟨v.keepRest x d [], _, run_one hcut hI hd, h.keepRest hI hd, hI', hw', he⟩

/-- **Batching**: for a registered client from which can be read, and two commands that it sends, the channels
are the same, whether the commands arrive in one buffer or in two, exactly if the first one does not end the
connection, and the second one, after the first, neither fails nor looks up a channel without members. -/
theorem batching_iff (hr : Reachable pass lfd cfg) (hphase : cfg.phase = .poll)
    (hc : cfg.srv.cliAt x = some c) (hreg : c.registered = true) (hread : ⟨c.fd, .pollin⟩ ∈ cfg.srv.polls)
    (hab : splitBufToCmds c.bufRecv (c.bufRecv ++ ab) = ([a, b], []))
    (ha : splitBufToCmds c.bufRecv (c.bufRecv ++ ba) = ([a], []))
    (hb : splitBufToCmds [] bb = ([b], [])) (hx : c.fd ∈ fds)
    (hfds : ∀ fd ∈ fds, fd ≠ c.fd → fd ∈ cfg.srv.clis ∧ fd ∉ cfg.srv.fdsToErase) :
    (∃ s₁ s₂, cfg.srv.oneBuffer c.fd ab = .ok s₁ ∧ cfg.srv.twoBuffers c.fd fds ba bb = .ok s₂ ∧
      s₁.chs = s₂.chs) ↔
    ¬ CmdIs (splitCmdToArgs a) "QUIT" ∧ ∃ u, cfg.srv.hear c.fd ba = .ok u ∧
      CmdSafe u x (splitCmdToArgs b) ∧ ¬ Rejoins u x (splitCmdToArgs b) := by
  obtain ⟨s, phase⟩ := cfg
  simp only at hphase hc hread hfds ⊢
  subst hphase
  have hI : Inv s := hr.good.inv
  obtain ⟨hw, hasked⟩ := hr.waits
  have hfree : c.fd ∉ s.fdsToErase := fun hm => by
    have hev := hasked c.fd hm _ hread rfl
    cases hev
  have hlive : ∀ fd ∈ fds, fd ≠ c.fd → (∃ p e, s.cliAt p = some e ∧ e.fd = fd) ∧ fd ∉ s.fdsToErase := by
    intro fd hfd hne
    obtain ⟨hin, hout⟩ := hfds fd hfd hne
    obtain ⟨e, he⟩ := Option.isSome_iff_exists.mp (ExtTreeMap.mem_iff_isSome_getElem?.mp hin)
    exact ⟨⟨e.addr, e, cliAt_of_clis hI he, hI.fd_eq fd e he⟩, hout⟩
  constructor
  · rintro ⟨s₁, s₂, h₁, h₂, heq⟩
    obtain ⟨u, w, hu, hwl, hclean⟩ := (oneBuffer_iff hI hc hab ha).mp h₁
    obtain ⟨u', v, z, hu', hv, hz, hclean'⟩ := twoBuffers_iff.mp h₂
    rw [hu] at hu'
    cases hu'
    obtain ⟨d, hafter⟩ := after_hear hI hw hc hreg ha hu
    by_cases hq : CmdIs (splitCmdToArgs a) "QUIT"
    · obtain ⟨v', hv', hgone⟩ := between_quit hafter hx hlive hq
      rw [hv] at hv'
      cases hv'
      exact absurd ⟨z, hz⟩ (hear_gone hgone)
    · refine ⟨hq, u, hu, ?_⟩
      obtain ⟨v', e, hv', hI', hw', hpruned, he, hefd, herecv⟩ := between_ok hafter hx hlive hfree hq
      rw [hv] at hv'
      cases hv'
      obtain ⟨t, e', hear, hpruned', hIt, hwt, he'⟩ := hear_second hpruned hI' hw' he herecv hb
      rw [← hefd, hear] at hz
      refine (line_iff hpruned' hafter.inv hIt hafter.waiting hwt hafter.author he' hafter.registered).mp
        ⟨w, z, hwl, hz, ?_⟩
      rw [cleanup_eq (execLine_inv hafter.inv hafter.author hwl)] at hclean
      rw [cleanup_eq (execLine_inv hIt he' hz)] at hclean'
      cases hclean
      cases hclean'
      exact heq
  · rintro ⟨hq, u, hu, hcond⟩
    obtain ⟨d, hafter⟩ := after_hear hI hw hc hreg ha hu
    obtain ⟨v, e, hv, hI', hw', hpruned, he, hefd, herecv⟩ := between_ok hafter hx hlive hfree hq
    obtain ⟨t, e', hear, hpruned', hIt, hwt, he'⟩ := hear_second hpruned hI' hw' he herecv hb
    obtain ⟨w, z, hwl, hz, heq⟩ := (line_iff hpruned' hafter.inv hIt hafter.waiting hwt hafter.author he'
      hafter.registered).mpr hcond
    refine ⟨w.swept, z.swept, (oneBuffer_iff hI hc hab ha).mpr ⟨u, w, hu, hwl, ?_⟩,
      twoBuffers_iff.mpr ⟨u, v, z, hu, hv, ?_, ?_⟩, heq⟩
    · exact cleanup_eq (execLine_inv hafter.inv hafter.author hwl)
    · rw [← hefd, hear]
      exact hz
    · exact cleanup_eq (execLine_inv hIt he' hz)

/-- The only member of a channel leaves it, and says something else. -/
theorem batching_iff_part : ∃ cfg c s₁ s₂, Reachable (str "2") 3 cfg ∧ cfg.srv.cliAt alice.addr = some c ∧
    On cfg.srv alice.addr (str "#c") ∧ cfg.srv.oneBuffer c.fd (str "PART #c\r\nPING\r\n") = .ok s₁ ∧
    cfg.srv.twoBuffers c.fd [4] (str "PART #c\r\n") (str "PING\r\n") = .ok s₂ ∧ s₁.chs = s₂.chs := by
  obtain ⟨cfg, hrun, hP⟩ := exists_run (str "2") 3 (connect 0 alice ++
    say 0 0 4 (register "al" ++ str "JOIN #c\r\n") ++ drain 0 0 129 ++ [.next, .next, .next])
    (fun cfg => cfg.polling && decide (On cfg.srv alice.addr (str "#c")) &&
      (cfg.srv.cliAt alice.addr).any fun c => c.registered ∧ c.fd = 4 ∧ c.bufRecv = [] ∧
        ⟨c.fd, .pollin⟩ ∈ cfg.srv.polls ∧ (cfg.srv.hear c.fd (str "PART #c\r\n")).toOption.isSome)
    (by decide +kernel)
  simp only [Bool.and_eq_true, Option.any_eq_true, decide_eq_true_eq] at hP
  obtain ⟨⟨hpoll, hon⟩, c, hc, hreg, hfd, hrecv, hread, hpart⟩ := hP
  obtain ⟨u, hu⟩ := Option.isSome_iff_exists.mp hpart
  have hreach : Reachable (str "2") 3 cfg := ⟨_, hrun⟩
  have hping : CmdIs (splitCmdToArgs (str "PING")) "PING" := by decide
  have hab : splitBufToCmds c.bufRecv (c.bufRecv ++ str "PART #c\r\nPING\r\n") =
      ([str "PART #c", str "PING"], []) := by
    rw [hrecv]
    decide
  have ha : splitBufToCmds c.bufRecv (c.bufRecv ++ str "PART #c\r\n") = ([str "PART #c"], []) := by
    rw [hrecv]
    decide
  have hb : splitBufToCmds [] (str "PING\r\n") = ([str "PING"], []) := by decide
  have hno : ¬ Rejoins u alice.addr (splitCmdToArgs (str "PING")) := by
    rintro ⟨_, _, hjoin, _⟩
    exact absurd (hjoin.unique hping) (by decide)
  obtain ⟨s₁, s₂, hone, htwo, heq⟩ := (batching_iff hreach (Config.polling_iff.mp hpoll) hc hreg hread hab ha hb
    (List.mem_singleton.mpr hfd) (fun fd hin hne => absurd ((List.mem_singleton.mp hin).trans hfd.symm) hne)).mpr
    ⟨by decide, u, eq_ok_of_toOption hu, cmdSafe_of_other hping (by decide), hno⟩
  exact ⟨cfg, c, s₁, s₂, hreach, hc, hon, hone, htwo, heq⟩

/-- It leaves, and comes back: in one buffer to the old channel, in two as the operator of a new one. -/
theorem batching_differs : ¬ ∀ (pass : Str) (lfd : Nat) (cfg : Config) (x : Ptr) (c : Cli) (a b ab ba bb : Str)
    (fds : List Nat), Reachable pass lfd cfg → cfg.phase = .poll → cfg.srv.cliAt x = some c →
    c.registered = true → ⟨c.fd, .pollin⟩ ∈ cfg.srv.polls →
    splitBufToCmds c.bufRecv (c.bufRecv ++ ab) = ([a, b], []) →
    splitBufToCmds c.bufRecv (c.bufRecv ++ ba) = ([a], []) → splitBufToCmds [] bb = ([b], []) → c.fd ∈ fds →
    (∀ fd ∈ fds, fd ≠ c.fd → fd ∈ cfg.srv.clis ∧ fd ∉ cfg.srv.fdsToErase) →
    ∀ s₁ s₂, cfg.srv.oneBuffer c.fd ab = .ok s₁ → cfg.srv.twoBuffers c.fd fds ba bb = .ok s₂ →
      s₁.chs = s₂.chs := by
  intro hall
  obtain ⟨cfg, hrun, hP⟩ := exists_run (str "2") 3 (connect 0 alice ++
    say 0 0 4 (register "al" ++ str "JOIN #c\r\n") ++ drain 0 0 129 ++ [.next, .next, .next])
    (fun cfg => cfg.polling && (cfg.srv.cliAt alice.addr).any fun c => c.registered ∧ c.fd = 4 ∧
        c.bufRecv = [] ∧ ⟨c.fd, .pollin⟩ ∈ cfg.srv.polls ∧
        ((cfg.srv.oneBuffer c.fd (str "PART #c\r\nJOIN #c\r\n")).toOption.any fun s₁ =>
          ¬ Op s₁ alice.addr (str "#c")) ∧
        ((cfg.srv.twoBuffers c.fd [4] (str "PART #c\r\n") (str "JOIN #c\r\n")).toOption.any fun s₂ =>
          Op s₂ alice.addr (str "#c")))
    (by decide +kernel)
  simp only [Bool.and_eq_true, Option.any_eq_true, decide_eq_true_eq] at hP
  obtain ⟨hpoll, c, hc, hreg, hfd, hrecv, hread, ⟨s₁, h₁, hno⟩, s₂, h₂, hop⟩ := hP
  have heq := hall _ _ cfg _ c (str "PART #c") (str "JOIN #c") (str "PART #c\r\nJOIN #c\r\n")
    (str "PART #c\r\n") (str "JOIN #c\r\n") [4] ⟨_, hrun⟩ (Config.polling_iff.mp hpoll) hc hreg hread
    (by rw [hrecv]; decide) (by rw [hrecv]; decide) (by decide) (List.mem_singleton.mpr hfd)
    (fun fd hin hne => absurd ((List.mem_singleton.mp hin).trans hfd.symm) hne) s₁ s₂ (eq_ok_of_toOption h₁)
    (eq_ok_of_toOption h₂)
  unfold Op at hno hop
  rw [heq] at hno
  exact hno hop

end FtIrc
