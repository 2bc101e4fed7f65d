import FtIrc.Admission
import FtIrc.Iterations
import FtIrc.Progress

/-!
# What is bounded and what is not

* `memberships_le` — the channels together have at most five members for each connected client; at every call of
  `poll` there are at most five channels for each.
* `unbounded_buffer` — `bufRecv` has no bound: a connection that never completes a line, and never gives the password,
  makes the server keep as many bytes as it likes.
-/

namespace FtIrc

open Std Outcome Server Delimited

variable {s s' : Server} {x p : Ptr} {c : Cli} {fd lfd n : Nat} {k pass : Str} {ch : Ch} {cfg : Config}

/-! ## Counting twice -/

/-- The pairs of a relation between two lists, counted by rows and by columns. -/
theorem sum_length_filter {α β : Type*} (R : α → β → Bool) (bs : List β) : ∀ as : List α,
    (as.map fun a => (bs.filter (R a)).length).sum = (bs.map fun b => (as.filter (R · b)).length).sum
  | [] => by simp
  | a :: as => by
    have hrow : (bs.filter (R a)).length = (bs.map fun b => if R a b then 1 else 0).sum := by
      induction bs with
      | nil => rfl
      | cons b bs ih =>
        rw [List.filter_cons, List.map_cons, List.sum_cons, ← ih]
        split
        · rw [List.length_cons, Nat.add_comm]
        · rw [Nat.zero_add]
    have hcol : ∀ b, ((a :: as).filter (R · b)).length = (if R a b then 1 else 0) + (as.filter (R · b)).length := by
      intro b
      rw [List.filter_cons]
      split
      · rw [List.length_cons, Nat.add_comm]
      · rw [Nat.zero_add]
    rw [List.map_cons, List.sum_cons, sum_length_filter R bs as, hrow, ← List.sum_map_add]
    simp only [hcol]

/-! ## The members of the channels -/

/-- The number of memberships: of each channel, its members. -/
def Server.memberships (s : Server) : Nat := (s.chs.toList.map fun e => e.2.size).sum

theorem nodup_addrs (hI : Inv s) : (s.clients.map (·.addr)).Nodup := by
  have hclients : s.clients.Nodup := by
    refine List.Nodup.of_map (fun c : Cli => c.fd) ?_
    have hkeys : s.clients.map (fun c : Cli => c.fd) = s.clis.keys := by
      unfold Server.clients
      rw [List.map_map, ← ExtTreeMap.map_fst_toList_eq_keys]
      refine List.map_congr_left fun e he => ?_
      exact hI.fd_eq e.1 e.2 (ExtTreeMap.mem_toList_iff_getElem?_eq_some.mp he)
    rw [hkeys]
    exact ExtTreeMap.nodup_keys
  exact hclients.map_on fun c hc d hd h => hI.addr_inj c hc d hd h

/-- The members of a channel are among the clients. -/
theorem size_eq_filter (hI : Inv s) (hch : s.chs[k]? = some ch) :
    ch.size = (s.clients.filter fun c => c.addr ∈ ch.clis).length := by
  have hperm : ch.clis.toList.Perm ((s.clients.filter fun c => c.addr ∈ ch.clis).map (·.addr)) := by
    refine (List.perm_ext_iff_of_nodup nodup_toList ?_).mpr fun p => ?_
    · exact (nodup_addrs hI).sublist (List.filter_sublist.map _)
    · rw [ExtTreeSet.mem_toList, List.mem_map]
      constructor
      · intro hp
        obtain ⟨c, -, hc, -⟩ := member_live hI hch hp
        obtain ⟨hmem, rfl⟩ := cliAt_mem hc
        exact ⟨c, List.mem_filter.mpr ⟨hmem, decide_eq_true hp⟩, rfl⟩
      · rintro ⟨c, hc, rfl⟩
        exact of_decide_eq_true (List.mem_filter.mp hc).2
  have hlen := hperm.length_eq
  rw [List.length_map, ExtTreeSet.length_toList] at hlen
  exact hlen

/-- **Memberships, counted by channels and by clients.** -/
theorem memberships_eq (hI : Inv s) : s.memberships = (s.clients.map fun c => s.nbChannels c.addr).sum := by
  have hsizes : ∀ e ∈ s.chs.toList, e.2.size = (s.clients.filter fun c => c.addr ∈ e.2.clis).length := fun e he =>
    size_eq_filter hI (ExtTreeMap.mem_toList_iff_getElem?_eq_some.mp he)
  unfold memberships nbChannels
  rw [List.map_congr_left hsizes]
  exact sum_length_filter (fun e (c : Cli) => c.addr ∈ e.2.clis) s.clients s.chs.toList

theorem length_clients : s.clients.length = s.clis.size := by
  unfold Server.clients
  rw [List.length_map, ExtTreeMap.length_toList]

/-- **The channels are bounded by the clients**: in a reachable state the channels together have at most five members
for each connected client, and at a call of `poll` there are at most five channels for each. -/
theorem memberships_le (hr : Reachable pass lfd cfg) :
    cfg.srv.memberships ≤ 5 * cfg.srv.clis.size ∧
      (cfg.phase = .poll → cfg.srv.chs.size ≤ 5 * cfg.srv.clis.size) := by
  have hI := hr.good.inv
  have hfive : cfg.srv.memberships ≤ 5 * cfg.srv.clis.size := by
    rw [memberships_eq hI, ← length_clients, Nat.mul_comm]
    refine (List.sum_le_card_nsmul _ 5 fun m hm => ?_).trans (by rw [List.length_map, smul_eq_mul])
    obtain ⟨c, -, rfl⟩ := List.mem_map.mp hm
    exact hr.bounded c.addr
  refine ⟨hfive, fun hphase => ?_⟩
  -- no channel is empty
  have hone : cfg.srv.chs.toList.length ≤ cfg.srv.memberships := by
    have hpos : ∀ m ∈ cfg.srv.chs.toList.map (fun e => e.2.size), 1 ≤ m := by
      intro m hm
      obtain ⟨e, he, rfl⟩ := List.mem_map.mp hm
      have hne := hr.good.peopled (.inr hphase) e.1 e.2 (ExtTreeMap.mem_toList_iff_getElem?_eq_some.mp he)
      omega
    have hsum := List.card_nsmul_le_sum _ 1 hpos
    rw [List.length_map, smul_eq_mul, Nat.mul_one] at hsum
    exact hsum
  rw [ExtTreeMap.length_toList] at hone
  omega

/-- A client on one channel. -/
theorem memberships_le_one : ∃ cfg, runServer (str "2") 3
      (connect 0 alice ++ say 0 0 4 (register "al" ++ str "JOIN #c\r\n")) = .ok cfg ∧ cfg.srv.memberships = 1 ∧
    cfg.srv.memberships ≤ 5 * cfg.srv.clis.size := by
  obtain ⟨cfg, hrun, hP⟩ := exists_run (str "2") 3
    (connect 0 alice ++ say 0 0 4 (register "al" ++ str "JOIN #c\r\n")) (fun cfg => cfg.srv.memberships = 1)
    (by decide +kernel)
  exact ⟨cfg, hrun, of_decide_eq_true hP, (memberships_le ⟨_, hrun⟩).1⟩

/-! ## The buffer of an unfinished line -/

/-- After an iteration: a client that nothing waits for, that is not marked and is read from. -/
structure Listened (s : Server) (fd : Nat) (c : Cli) : Prop where
  record : s.clis[fd]? = some c
  idle : c.bufToSend = []
  unmarked : fd ∉ s.fdsToErase
  asks : AsksIn s.polls fd

/-- The cleanup leaves such a client alone, and `run` comes to `poll`. -/
theorem Listened.settle (h : Listened s fd c) (hr : Reachable pass lfd ⟨s, .clis⟩) :
    ∃ s', Leads ⟨s, .clis⟩ [] ⟨s', .poll⟩ ∧ Listened s' fd c := by
  have hI : Inv s := hr.good.inv
  have hw := hr.bookkept.1.watched
  refine ⟨s.swept.markPollsToSendMsgsTo, (leads_cleanup (cleanup_eq hI)).trans leads_mark, ?_, h.idle, ?_, ?_⟩
  · show s.swept.clis[fd]? = _
    rw [getElem?_clis_swept, if_neg fun hm => h.unmarked hm.1, h.record]
  · show fd ∉ s.cleaned.fdsToErase
    intro hm
    exact h.unmarked (mem_fdsToErase_cleaned.mp hm).1
  · refine asksIn_mark (asksIn_swept hw h.asks) (pending_swept ?_)
    unfold Server.pending
    rw [h.record, Option.any_some, h.idle]
    rfl

/-- A byte that ends no line is put behind the others. -/
theorem split_unfinished {u : Str} {b : UInt8} (hu : LF ∉ u) (hb : b ≠ LF) :
    splitBufToCmds u (u ++ [b]) = ([], u ++ [b]) := by
  have hfree : CrlfFree (u ++ [b]) := fun hin => by
    have hmem : LF ∈ u ++ [b] := hin.subset (by simp [CRLF])
    rcases List.mem_append.mp hmem with h | h
    · exact hu h
    · exact hb (List.mem_singleton.mp h).symm
  have hlast : fromNetcat (u ++ [b]) = false := by
    simp [fromNetcat, hb]
  unfold splitBufToCmds
  rw [if_neg (by simp), hlast, if_neg Bool.false_ne_true]
  exact split_none ((find_eq_none_iff crlf_ne_nil).mpr hfree)

/-- One byte is received. -/
theorem Listened.hear (h : Listened s fd c) (hr : Reachable pass lfd ⟨s, .poll⟩) {b : UInt8} (hu : LF ∉ c.bufRecv)
    (hb : b ≠ LF) : ∃ s', Reachable pass lfd ⟨s', .poll⟩ ∧ Listened s' fd { c with bufRecv := c.bufRecv ++ [b] } := by
  have hI : Inv s := hr.good.inv
  have hbk := hr.bookkept.1
  have hcfd := hI.fd_eq fd c h.record
  have hin : fd ∈ s.clis := mem_of_getElem?_clis h.record
  have hread : (⟨fd, .pollin⟩ : Pollfd) ∈ s.polls := by
    obtain ⟨p, hp, rfl⟩ := List.mem_map.mp (hbk.entry fd (.inr hin))
    rw [← h.asks p hp rfl]
    exact hp
  have hlfd : fd ≠ s.fdForNewClis := fun he => hbk.closed (hbk.listener ▸ he ▸ hin)
  have hhear : s.hear fd [b] = .ok (s.keepRest c.addr c (c.bufRecv ++ [b])) := by
    rw [← hcfd, hear_ok hI (cliAt_of_clis hI h.record) (split_unfinished hu hb)]
    rfl
  have hlead := leads_hear hbk.watched.nodup hread hlfd ⟨by simp, by simp [BUFSIZE]⟩ hhear
  have hkept : Listened (s.keepRest c.addr c (c.bufRecv ++ [b])) fd { c with bufRecv := c.bufRecv ++ [b] } := by
    refine ⟨?_, h.idle, h.unmarked, h.asks⟩
    unfold keepRest
    rw [getElem?_clis_updCli, h.record, Option.map_some, if_pos rfl]
  obtain ⟨s', hlead', hs'⟩ := hkept.settle (hlead.reachable hr)
  exact ⟨s', (hlead.trans hlead').reachable hr, hs'⟩

/-- A client connects. -/
theorem exists_listened (pass : Str) (lfd : Nat) : ∃ s c, Reachable pass lfd ⟨s, .poll⟩ ∧
    Listened s (lfd + 1) c ∧ c.bufRecv = [] ∧ c.passOk = false ∧ c.hist.cmds = [] := by
  let conn : Conn := ⟨lfd + 1, 1, (127, 0, 0, 1)⟩
  have hpoll : runServer pass lfd (wait [readable]) = .ok ⟨(start pass lfd).srv, .events [(lfd, readable)]⟩ := rfl
  have haccept : step ⟨(start pass lfd).srv, .events [(lfd, readable)]⟩ (.accept (some conn)) =
      .ok ⟨(start pass lfd).srv.addNewClient conn, .clis⟩ := by
    have hconn : acceptContract (start pass lfd).srv conn = true :=
      acceptContract_iff.mpr ⟨ExtTreeMap.not_mem_empty, Nat.succ_ne_self lfd, Nat.one_ne_zero, rfl⟩
    show (if _ ∧ _ then _ else _) = _
    rw [if_pos ⟨rfl, rfl⟩]
    exact if_pos hconn
  have hr : Reachable pass lfd ⟨(start pass lfd).srv.addNewClient conn, .clis⟩ :=
    Reachable.step ⟨_, hpoll⟩ haccept
  have hnew : Listened ((start pass lfd).srv.addNewClient conn) (lfd + 1)
      (Cli.new conn.addr conn.fd (inetNtoa conn.ip)) := by
    refine ⟨ExtTreeMap.getElem?_insert_self, rfl, ExtTreeSet.not_mem_empty, fun p hp _ => ?_⟩
    rcases List.mem_append.mp hp with hp | hp
    · rw [List.mem_singleton.mp hp]
    · rw [List.mem_singleton.mp hp]
  obtain ⟨s', hlead, hs'⟩ := hnew.settle hr
  exact ⟨s', _, hlead.reachable hr, hs', rfl, rfl, rfl⟩

/-- **What is received has no bound**: any text without LF, however long, can be what the server keeps of a client that
has given no password, and of which it has executed nothing. -/
theorem unbounded_buffer (pass : Str) (lfd : Nat) : ∀ u : Str, LF ∉ u →
    ∃ s c, Reachable pass lfd ⟨s, .poll⟩ ∧ c ∈ s.clients ∧ c.bufRecv = u ∧ c.passOk = false ∧ c.hist.cmds = [] := by
  have hall : ∀ u : Str, LF ∉ u → ∃ s c, Reachable pass lfd ⟨s, .poll⟩ ∧ Listened s (lfd + 1) c ∧
      c.bufRecv = u ∧ c.passOk = false ∧ c.hist.cmds = [] := by
    intro u
    induction u using List.reverseRecOn with
    | nil => exact fun _ => exists_listened pass lfd
    | append_singleton u b ih =>
      intro hu
      rw [List.mem_append, not_or, List.mem_singleton] at hu
      obtain ⟨s, c, hr, hc, rfl, hpass, hcmds⟩ := ih hu.1
      obtain ⟨s', hr', hc'⟩ := hc.hear hr hu.1 (Ne.symm hu.2)
      exact ⟨s', _, hr', hc', rfl, hpass, hcmds⟩
  intro u hu
  obtain ⟨s, c, hr, hc, hrest⟩ := hall u hu
  exact ⟨s, c, hr, mem_clients.mpr ⟨_, hc.record⟩, hrest⟩

/-- More than a command may have. -/
theorem unbounded_buffer_long : ∃ s c, Reachable (str "2") 3 ⟨s, .poll⟩ ∧ c ∈ s.clients ∧
    MAX_CMD_LEN < c.bufRecv.length ∧ c.passOk = false := by
  obtain ⟨s, c, hr, hc, hbuf, hpass, -⟩ := unbounded_buffer (str "2") 3 (List.replicate 600 65)
    fun h => absurd (List.eq_of_mem_replicate h) (by decide)
  refine ⟨s, c, hr, hc, ?_, hpass⟩
  rw [hbuf, List.length_replicate]
  decide

end FtIrc
