import FtIrc.Departure
import FtIrc.Operators
import FtIrc.Resources
import FtIrc.Tracking

/-!
# The calls of `eraseCliFromCh`

`execPart`, `execKick` and `eraseUnusedClis` call it from inside their loops.  `Erases` are the calls of one step, read
off these loops: each with the server on which it is made.

A step takes the clients of `takenOff` off a channel, one after the other; each of them that is on the channel when
its turn comes is taken off by a call (`takenOff_call`), and there are no others (`call_takenOff`).
-/

namespace FtIrc

open Std Outcome Server

variable {s s' : Server} {x p q : Ptr} {ar items targets tDone ks : List Str} {c : Cli} {k a1 name line text nick : Str}
  {ch : Ch} {cfg : Config} {who : Str → Ptr} {D : Ptr → Bool} {before after : List Ptr} {fds : List Nat}
  {cs ds : List Cli}

/-- A call `eraseCliFromCh(nick, chName)`, and the server on which it is made. -/
structure Erasure where
  srv : Server
  nick : Str
  chName : Str

/-! ## The loops -/

/-- The call of `execPart` for the item `name`: the items `done` are behind it, and the departure is announced. -/
inductive PartErases (s : Server) (x : Ptr) (ar : List Str) : Erasure → Prop
  | call (c : Cli) (a1 name : Str) (done todo : List Str) (p : Ptr) (t u : Server) :
      s.cliAt x = some c → c.registered = true → ar[1]? = some a1 → splitArgToSubargs a1 = done ++ name :: todo →
      partLoop x c a1 (partText ar) done s = .ok t →
      t.getCh name ≠ none → t.getCliOnCh c.nick name = .ok p → p ≠ NULL →
      t.prepareRespAuthorIncluding (t.getCh a1) (partLine c a1 (partText ar)) = .ok u →
      PartErases s x ar ⟨u, c.nick, name⟩

/-- The call of `execKick` for the target `target` on the channel `name`. -/
inductive KickErases (s : Server) (x : Ptr) (ar : List Str) : Erasure → Prop
  | call (c : Cli) (a1 a2 name target : Str) (done todo tDone tTodo : List Str) (p q r : Ptr) (t u v : Server) :
      s.cliAt x = some c → c.registered = true → ar[1]? = some a1 → ar[2]? = some a2 →
      splitArgToSubargs a1 = done ++ name :: todo → splitArgToSubargs a2 = tDone ++ target :: tTodo →
      kickLoop x c a1 (kickLine c a1 a2 (kickText ar)) (splitArgToSubargs a2) done s = .ok t →
      t.getCh name ≠ none → t.getCliOnCh c.nick name = .ok p → p ≠ NULL →
      t.getAdmOnCh c.nick name = .ok q → q ≠ NULL →
      kickTargets x a1 (kickLine c a1 a2 (kickText ar)) name tDone t = .ok u →
      u.getCliOnCh target name = .ok r → r ≠ NULL →
      u.prepareRespAuthorIncluding (u.getCh a1) (kickLine c a1 a2 (kickText ar)) = .ok v →
      KickErases s x ar ⟨v, target, name⟩

/-- The call of `eraseUnusedClis` for the client at `fd` and the channel `k`. -/
inductive CleanupErases (s : Server) : Erasure → Prop
  | call (c : Cli) (fd : Nat) (done todo removed : List Nat) (k : Str) (ks ks' : List Str) (t u : Server) :
      s.fdsToErase.toList = done ++ fd :: todo → eraseClisLoop done s = .ok (t, removed) →
      t.clis[fd]? = some c → c.bufToSend = [] → t.chs.keys = ks ++ k :: ks' → eraseFromChs c.nick ks t = .ok u →
      CleanupErases s ⟨u, c.nick, k⟩

/-- The calls of `eraseCliFromCh` in the next step. -/
inductive Erases : Config → Erasure → Prop
  | part {s x line lines todo call} : CmdIs (splitCmdToArgs line) "PART" →
      PartErases s x (splitCmdToArgs line) call → Erases ⟨s, .cmds x (line :: lines) todo⟩ call
  /-- `JOIN 0` -/
  | joinZero {s x c line lines todo names call} : s.cliAt x = some c → CmdIs (splitCmdToArgs line) "JOIN" →
      (splitCmdToArgs line).length = 2 → (splitCmdToArgs line)[1]? = some (str "0") →
      s.joinedNames c.nick s.chs.keys = .ok names →
      PartErases s x ((splitCmdToArgs line).set 1 names.dropLast) call →
      Erases ⟨s, .cmds x (line :: lines) todo⟩ call
  | kick {s x line lines todo call} : CmdIs (splitCmdToArgs line) "KICK" →
      KickErases s x (splitCmdToArgs line) call → Erases ⟨s, .cmds x (line :: lines) todo⟩ call
  | cleanup {s call} : CleanupErases s call → Erases ⟨s, .clis⟩ call

/-! ## Who is taken off -/

instance : Decidable (PartCmd ar) := by
  unfold PartCmd
  infer_instance

/-- Whom the command of `x` takes off the channel `k`, in order, as far as they are members when their turn comes. -/
def takenBy (s : Server) (x : Ptr) (ar : List Str) (k : Str) : List Ptr :=
  if PartCmd ar then if k = leftName s x ar then [x] else []
  else if CmdIs ar "KICK" ∧ k = argD ar 1 ∧ Op s x k then (splitArgToSubargs (argD ar 2)).map s.getCli
  else []

/-- Whom the next step takes off the channel `k`. -/
def takenOff (cfg : Config) (k : Str) : List Ptr :=
  match cfg.phase with
  | .clis => (cfg.srv.leavers cfg.srv.fdsToErase.toList).map (·.addr)
  | .cmds x (line :: _) _ => takenBy cfg.srv x (splitCmdToArgs line) k
  | _ => []

/-- The call is for the channel at the key `k`, which is `ch` then, and does to it what the departure of `p` does. -/
structure Erasure.Takes (call : Erasure) (k : Str) (ch : Ch) (p : Ptr) : Prop where
  key : call.srv.getCh call.chName = some k
  entry : call.srv.chs[k]? = some ch
  same : ch.drop (call.srv.getCli call.nick) = ch.drop p

theorem Erasure.Takes.erase {call : Erasure} (h : call.Takes k ch p) :
    call.srv.eraseCliFromCh call.nick call.chName = .ok (call.srv.updCh k fun _ => ch.drop p) := by
  rw [eraseCliFromCh_ok rfl h.key h.entry, h.same]

/-! ## PART -/

theorem sameKeys_erase (h : s.eraseCliFromCh nick name = .ok s') : SameKeys s s' := by
  obtain ⟨ch, -, h⟩ := bind_ok_iff.mp h
  exact sameKeys_setCh h

theorem SameKeys.getCh_ne_none (h : SameKeys s s') : s'.getCh name ≠ none ↔ s.getCh name ≠ none := by
  rw [Ne, Ne, getCh_none_iff, getCh_none_iff]
  exact not_congr (forall_congr' fun k => imp_congr_left (h k))

theorem sameKeys_partLoop : ∀ (items : List Str) (s : Server), partLoop x c a1 text items s = .ok s' → SameKeys s s'
  | [], s, h => by
    cases h
    exact .refl s'
  | i :: items, s, h => by
    unfold partLoop at h
    have hrest : ∀ {t}, SameKeys s t → partLoop x c a1 text items t = .ok s' → SameKeys s s' := fun ht h =>
      ht.trans (sameKeys_partLoop items _ h)
    dsimp only at h
    split at h
    · obtain ⟨t, ht, h⟩ := bind_ok_iff.mp h
      exact hrest (sameKeys_prepareResp ht) h
    obtain ⟨p, -, h⟩ := bind_ok_iff.mp h
    split at h
    · obtain ⟨t, ht, h⟩ := bind_ok_iff.mp h
      exact hrest (sameKeys_prepareResp ht) h
    obtain ⟨t, ht, h⟩ := bind_ok_iff.mp h
    obtain ⟨u, hu, h⟩ := bind_ok_iff.mp h
    exact hrest ((sameKeys_broadcast ht).trans (sameKeys_erase hu)) h

/-- A name that has been looked up, and whose channel has been scanned, is a key. -/
theorem mem_of_scan {n : Str} (hget : s.getCh name ≠ none) (h : s.getCliOnCh n name = .ok p) : name ∈ s.chs := by
  by_contra hno
  rw [getCliOnCh_misspelt hget hno] at h
  cases h

theorem getCh_of_broadcast {m : Str} (h : s.prepareRespAuthorIncluding (s.getCh name) m = .ok s') :
    s.getCh name ≠ none := by
  intro hnone
  rw [hnone] at h
  cases h

theorem argD_key (hI : Inv s) {n : Nat} (h : argD ar n ∈ s.chs) : ar[n]? = some (argD ar n) := by
  cases hn : ar[n]? with
  | some a => rw [argD_of_getElem? hn]
  | none =>
    rw [argD_of_length (List.getElem?_eq_none_iff.mp hn)] at h
    exact absurd (hI.ch_name _ h).long (by decide)

/-- A list that is itself looked up has no other item. -/
theorem only_item (hI : Inv s) (hget : s.getCh a1 ≠ none) {done todo : List Str}
    (hsplit : splitArgToSubargs a1 = done ++ name :: todo) : done = [] ∧ name = a1 ∧ todo = [] := by
  rw [split_of_getCh hI hget] at hsplit
  cases done with
  | nil =>
    cases hsplit
    exact ⟨rfl, rfl, rfl⟩
  | cons d done => simp at hsplit

/-- Somebody has been found. -/
theorem of_found {P : Prop} [Decidable P] (h : (.ok (if P then p else NULL) : Except Fault Ptr) = .ok q)
    (hq : q ≠ NULL) : P := by
  by_contra hno
  rw [if_neg hno] at h
  cases h
  exact hq rfl

/-- The list of `PART` is the channel that the author leaves. -/
theorem partErases_iff (hI : Inv s) {call : Erasure} : PartErases s x ar call ↔
    ∃ c ch, s.cliAt x = some c ∧ s.chs[argD ar 1]? = some ch ∧ x ∈ ch.clis ∧
      call = ⟨s.sendAll (bcast ch (partLine c (argD ar 1) (partText ar))), c.nick, argD ar 1⟩ := by
  constructor
  · rintro ⟨c, a1, name, done, todo, p, t, u, hc, -, ha1, hsplit, hloop, hget, hscan, hp, hu⟩
    -- the departure is announced to the channel that the list names
    have hget1 := (sameKeys_partLoop done s hloop).getCh_ne_none.mp (getCh_of_broadcast hu)
    obtain ⟨rfl, rfl, rfl⟩ := only_item hI hget1 hsplit
    cases hloop
    obtain ⟨ch, hch⟩ := mem_chs.mp (mem_of_scan hget hscan)
    rw [argD_of_getElem? ha1]
    rw [getCliOnCh_self hI hch hc rfl] at hscan
    have hx : x ∈ ch.clis := of_found hscan hp
    rw [getCh_self hI (mem_chs.mpr ⟨ch, hch⟩), prepareRespAuthorIncluding_ok hI hch] at hu
    cases hu
    exact ⟨c, ch, hc, hch, hx, rfl⟩
  · rintro ⟨c, ch, hc, hch, hx, rfl⟩
    have hmem : argD ar 1 ∈ s.chs := mem_chs.mpr ⟨ch, hch⟩
    have hget : s.getCh (argD ar 1) = some (argD ar 1) := getCh_self hI hmem
    refine .call c (argD ar 1) (argD ar 1) [] [] x s _ hc (registered_of_on hI hc ⟨ch, hch, hx⟩) (argD_key hI hmem)
      (split_chName (hI.ch_name _ hmem)) rfl (by rw [hget]; simp) ?_ (ne_null_of_cliAt hI hc) ?_
    · rw [getCliOnCh_self hI hch hc rfl, if_pos hx]
    · rw [hget]
      exact prepareRespAuthorIncluding_ok hI hch

/-- The call that `PART` makes is for the author. -/
theorem partErases_takes (hI : Inv s) (hc : s.cliAt x = some c) (hch : s.chs[argD ar 1]? = some ch)
    (hx : x ∈ ch.clis) :
    Erasure.Takes ⟨s.sendAll (bcast ch (partLine c (argD ar 1) (partText ar))), c.nick, argD ar 1⟩ (argD ar 1) ch x where
  key := by
    rw [getCh_sendAll]
    exact getCh_self hI (mem_chs.mpr ⟨ch, hch⟩)
  entry := by
    rw [chs_sendAll]
    exact hch
  same := by rw [getCli_sendAll, getCli_self hI hc (registered_of_on hI hc ⟨ch, hch, hx⟩)]

/-! ## KICK -/

theorem sameKeys_kickTargets : ∀ (targets : List Str) (s : Server),
    kickTargets x a1 line name targets s = .ok s' → SameKeys s s'
  | [], s, h => by
    cases h
    exact .refl s'
  | t :: targets, s, h => by
    unfold kickTargets at h
    obtain ⟨p, -, h⟩ := bind_ok_iff.mp h
    dsimp only at h
    split at h
    · obtain ⟨u, hu, h⟩ := bind_ok_iff.mp h
      exact (sameKeys_prepareResp hu).trans (sameKeys_kickTargets targets u h)
    obtain ⟨u, hu, h⟩ := bind_ok_iff.mp h
    obtain ⟨v, hv, h⟩ := bind_ok_iff.mp h
    exact (sameKeys_broadcast hu).trans ((sameKeys_erase hv).trans (sameKeys_kickTargets targets v h))

theorem sameKeys_kickLoop : ∀ (items : List Str) (s : Server),
    kickLoop x c a1 line targets items s = .ok s' → SameKeys s s'
  | [], s, h => by
    cases h
    exact .refl s'
  | i :: items, s, h => by
    unfold kickLoop at h
    have hreply : ∀ {m}, (s.prepareResp x m >>= kickLoop x c a1 line targets items) = .ok s' → SameKeys s s' := by
      intro m h
      obtain ⟨t, ht, h⟩ := bind_ok_iff.mp h
      exact (sameKeys_prepareResp ht).trans (sameKeys_kickLoop items t h)
    dsimp only at h
    split at h
    · exact hreply h
    obtain ⟨p, -, h⟩ := bind_ok_iff.mp h
    split at h
    · exact hreply h
    obtain ⟨q, -, h⟩ := bind_ok_iff.mp h
    split at h
    · exact hreply h
    obtain ⟨t, ht, h⟩ := bind_ok_iff.mp h
    exact (sameKeys_kickTargets targets s ht).trans (sameKeys_kickLoop items t h)

/-- The server on which the author `c` of `KICK` has the target behind `done` taken off the channel `ch`. -/
def kickState (s : Server) (x : Ptr) (c : Cli) (ar done : List Str) (ch : Ch) : Server :=
  let line := kickLine c (argD ar 1) (argD ar 2) (kickText ar)
  (s.updCh (argD ar 1) fun _ => kickCh s.getCli ch done).sendAll
    (kickMail s.getCli x (argD ar 1) line ch done ++ bcast (kickCh s.getCli ch done) line)

theorem entry_kickCh (hch : s.chs[k]? = some ch) :
    (s.updCh k fun _ => kickCh s.getCli ch tDone).chs[k]? = some (kickCh s.getCli ch tDone) := by
  rw [getElem?_chs_put hch, if_pos rfl]

section Kick

variable (hI : Inv s)

include hI

theorem inv_kickCh (hch : s.chs[k]? = some ch) : Inv (s.updCh k fun _ => kickCh s.getCli ch tDone) :=
  inv_updCh hI hch (fun p hp => .inl ((kickCh_sub s.getCli tDone ch (hI.adm k ch hch)).1 p hp))
    (kickCh_sub s.getCli tDone ch (hI.adm k ch hch)).2

/-- What `KICK` finds for the target that comes next. -/
theorem scan_kickCh (hch : s.chs[k]? = some ch) {mail : Mail} {target : Str} :
    ((s.updCh k fun _ => kickCh s.getCli ch tDone).sendAll mail).getCliOnCh target k =
      .ok (if s.getCli target ∈ (kickCh s.getCli ch tDone).clis then s.getCli target else NULL) := by
  rw [getCliOnCh_sendAll, getCliOnCh_eq (inv_kickCh hI hch) (entry_kickCh hch), getCli_updCh]

/-- What it announces. -/
theorem broadcast_kickCh (hch : s.chs[k]? = some ch) {mail : Mail} :
    ((s.updCh k fun _ => kickCh s.getCli ch tDone).sendAll mail).prepareRespAuthorIncluding
        (((s.updCh k fun _ => kickCh s.getCli ch tDone).sendAll mail).getCh k) line =
      .ok ((s.updCh k fun _ => kickCh s.getCli ch tDone).sendAll (mail ++ bcast (kickCh s.getCli ch tDone) line)) := by
  rw [getCh_sendAll, getCh_updCh, getCh_self hI (mem_chs.mpr ⟨ch, hch⟩)]
  exact bcast_sendAll (inv_kickCh hI hch) (entry_kickCh hch) line

/-- The calls of `KICK` are for the targets that are on the channel when their turn comes. -/
theorem kickErases_iff {call : Erasure} : KickErases s x ar call ↔
    ∃ c ch tDone target tTodo, s.cliAt x = some c ∧ s.chs[argD ar 1]? = some ch ∧ x ∈ ch.adms ∧
      splitArgToSubargs (argD ar 2) = tDone ++ target :: tTodo ∧
      s.getCli target ∈ (kickCh s.getCli ch tDone).clis ∧
      call = ⟨kickState s x c ar tDone ch, target, argD ar 1⟩ := by
  constructor
  · rintro ⟨c, a1, a2, name, target, done, todo, tDone, tTodo, p, q, r, t, u, v, hc, -, ha1, ha2, hsplit, htargets,
      hloop, hget, hscan, hp, hadm, hq, hkicks, hfind, hr, hv⟩
    have hget1 := ((sameKeys_kickLoop done s hloop).trans (sameKeys_kickTargets tDone t hkicks)).getCh_ne_none.mp
      (getCh_of_broadcast hv)
    obtain ⟨rfl, rfl, rfl⟩ := only_item hI hget1 hsplit
    cases hloop
    obtain ⟨ch, hch⟩ := mem_chs.mp (mem_of_scan hget hscan)
    have hself : s.getCh name = some name := getCh_self hI (mem_chs.mpr ⟨ch, hch⟩)
    rw [getAdmOnCh_self hI hch hc rfl] at hadm
    have hx : x ∈ ch.adms := of_found hadm hq
    have hrun := kickTargets_run (kickLine c name a2 (kickText ar)) tDone s ch [] hI hc hch (.inl hself)
    rw [sendAll_nil, hkicks] at hrun
    cases hrun
    rw [scan_kickCh hI hch] at hfind
    rw [broadcast_kickCh hI hch] at hv
    have hon : s.getCli target ∈ (kickCh s.getCli ch tDone).clis := of_found hfind hr
    cases hv
    refine ⟨c, ch, tDone, target, tTodo, hc, ?_, hx, ?_, hon, ?_⟩
    · rw [argD_of_getElem? ha1]
      exact hch
    · rw [argD_of_getElem? ha2]
      exact htargets
    · unfold kickState
      rw [argD_of_getElem? ha1, argD_of_getElem? ha2]
      rfl
  · rintro ⟨c, ch, tDone, target, tTodo, hc, hch, hx, htargets, hon, rfl⟩
    have hmem : argD ar 1 ∈ s.chs := mem_chs.mpr ⟨ch, hch⟩
    have hself : s.getCh (argD ar 1) = some (argD ar 1) := getCh_self hI hmem
    have hxc : x ∈ ch.clis := hI.adm _ ch hch x hx
    have ha2 : ar[2]? = some (argD ar 2) := by
      obtain ⟨a2, ha2⟩ := exists_arg ar 2 (length_of_target (v := target) (by rw [htargets]; simp))
      rw [argD_of_getElem? ha2]
      exact ha2
    have hrun := kickTargets_run (kickLine c (argD ar 1) (argD ar 2) (kickText ar)) tDone s ch [] hI hc hch (.inl hself)
    rw [sendAll_nil] at hrun
    have hlive : s.getCli target ≠ NULL := by
      obtain ⟨d, -, hd, -⟩ := member_live hI hch ((kickCh_sub s.getCli tDone ch (hI.adm _ ch hch)).1 _ hon)
      exact ne_null_of_cliAt hI hd
    refine .call c (argD ar 1) (argD ar 2) (argD ar 1) target [] [] tDone tTodo x x (s.getCli target) s _ _ hc
      (registered_of_on hI hc ⟨ch, hch, hxc⟩) (argD_key hI hmem) ha2 (split_chName (hI.ch_name _ hmem)) htargets rfl
      (by rw [hself]; simp) ?_ (ne_null_of_cliAt hI hc) ?_ (ne_null_of_cliAt hI hc) hrun ?_ hlive ?_
    · rw [getCliOnCh_self hI hch hc rfl, if_pos hxc]
    · rw [getAdmOnCh_self hI hch hc rfl, if_pos hx]
    · rw [scan_kickCh hI hch, if_pos hon]
    · exact broadcast_kickCh hI hch

end Kick

/-- Where there is an operator, the departure of somebody who is not there is nothing. -/
theorem kickCh_foldl : ∀ (targets : List Str) (ch : Ch), (∀ q ∈ ch.adms, q ∈ ch.clis) →
    ¬ (ch.adms.size = 0 ∧ 0 < ch.clis.size) → kickCh who ch targets = (targets.map who).foldl Ch.drop ch
  | [], _, _, _ => rfl
  | t :: targets, ch, hadm, hhead => by
    unfold kickCh
    rw [List.map_cons, List.foldl_cons]
    split
    · exact kickCh_foldl targets _ (adms_drop_subset hadm) (drop_headed ch _)
    · rename_i hno
      rw [drop_eq_self hno hadm hhead]
      exact kickCh_foldl targets ch hadm hhead

theorem takes_kick (hI : Inv s) (hch : s.chs[argD ar 1]? = some ch) (hx : x ∈ ch.adms) {target : Str} :
    Erasure.Takes ⟨kickState s x c ar tDone ch, target, argD ar 1⟩ (argD ar 1) ((tDone.map s.getCli).foldl Ch.drop ch)
      (s.getCli target) where
  key := by
    unfold kickState
    rw [getCh_sendAll, getCh_updCh]
    exact getCh_self hI (mem_chs.mpr ⟨ch, hch⟩)
  entry := by
    unfold kickState
    rw [chs_sendAll, entry_kickCh hch, kickCh_foldl tDone ch (hI.adm _ ch hch)
      fun h => size_eq_zero_iff.mp h.1 x hx]
  same := by
    unfold kickState
    rw [getCli_sendAll, getCli_updCh]

/-! ## The cleanup -/

theorem inv_without (hI : Inv s) (hnodup : fds.Nodup) : Inv (s.without fds) := by
  obtain ⟨⟨t, r⟩, ht, hIt, -⟩ := eraseClisLoop_done (P := fun _ => True) (fun _ _ _ _ _ _ => trivial)
    (fun _ _ _ _ _ _ _ => trivial) fds s hI trivial
  rw [eraseClisLoop_eq fds s hI hnodup] at ht
  cases ht
  exact hIt

theorem getCh_dropIn : (s.dropIn ks p).getCh name = s.getCh name := by
  simp [getCh, dropIn]

theorem leavers_append {done todo : List Nat} {fd : Nat} (hc : s.clis[fd]? = some c) (hb : c.bufToSend = []) :
    s.leavers (done ++ fd :: todo) = s.leavers done ++ c :: s.leavers todo := by
  unfold leavers
  rw [List.filterMap_append, List.filterMap_cons_some (b := c) (by rw [hc]; simp [hb])]

/-- The loop of `eraseUnusedClis` where it comes to the client at `fd`, and the one over the channels where it comes
to `k`. -/
theorem cleanup_next (hI : Inv s) {done todo : List Nat} {fd : Nat} {ks' : List Str}
    (hfds : s.fdsToErase.toList = done ++ fd :: todo) (hc : s.clis[fd]? = some c) (hch : s.chs[k]? = some ch)
    (hkeys : (s.without done).chs.keys = ks ++ k :: ks') :
    (s.without done).clis[fd]? = some c ∧
      eraseFromChs c.nick ks (s.without done) =
        .ok ((s.without done).dropIn ks ((s.without done).getCli c.nick)) ∧
      Erasure.Takes ⟨(s.without done).dropIn ks ((s.without done).getCli c.nick), c.nick, k⟩ k
        (ch.dropEach (s.leavers done)) c.addr := by
  have hnodup : (done ++ fd :: todo).Nodup := hfds ▸ nodup_toList
  obtain ⟨hdone, -, hdisj⟩ := List.nodup_append.mp hnodup
  have hIt := inv_without hI hdone
  have hct : (s.without done).clis[fd]? = some c := by
    rw [getElem?_clis_without, if_neg (fun h => hdisj fd h.1 fd (by simp) rfl)]
    exact hc
  have hcht : (s.without done).chs[k]? = some (ch.dropEach (s.leavers done)) := by
    rw [getElem?_chs_without, hch]
    rfl
  have hnodupk : (ks ++ k :: ks').Nodup := hkeys ▸ ExtTreeMap.nodup_keys
  obtain ⟨hks, -, hdisjk⟩ := List.nodup_append.mp hnodupk
  have hk : k ∉ ks := fun h => hdisjk k h k (by simp) rfl
  refine ⟨hct, eraseFromChs_ok ks _ rfl hks fun j hj => getCh_self hIt ?_, ?_, ?_, ?_⟩
  · rw [← ExtTreeMap.mem_keys, hkeys]
    simp [hj]
  · rw [getCh_dropIn]
    exact getCh_self hIt (mem_chs.mpr ⟨_, hcht⟩)
  · simp only [dropIn, ExtTreeMap.getElem?_map, hcht, Option.map_some, if_neg hk]
  · show Ch.drop _ ((s.without done).getCli c.nick) = _
    rcases getCli_reap hIt (mem_clients.mpr ⟨fd, hct⟩) with heq | hno
    · rw [heq]
    · -- a client without a nick is taken for another, and neither is on a channel
      obtain ⟨h1, h2⟩ := hno k _ hcht
      exact drop_of_not_mem h1 h2 (hIt.adm k _ hcht)

/-! ## The calls of a step -/

theorem leftName_part (hcmd : CmdIs ar "PART") : leftName s x ar = argD ar 1 :=
  if_neg fun hj => absurd (hj.unique hcmd) (by decide)

theorem takenBy_part (hpart : PartCmd ar) : takenBy s x ar (leftName s x ar) = [x] := by
  unfold takenBy
  rw [if_pos hpart, if_pos rfl]

theorem takenBy_kick (hcmd : CmdIs ar "KICK") (hop : Op s x (argD ar 1)) :
    takenBy s x ar (argD ar 1) = (splitArgToSubargs (argD ar 2)).map s.getCli := by
  have hpart : ¬ PartCmd ar := by
    rintro (hp | ⟨hj, -⟩)
    · exact absurd (hp.unique hcmd) (by decide)
    · exact absurd (hj.unique hcmd) (by decide)
  unfold takenBy
  rw [if_neg hpart, if_pos ⟨hcmd, rfl, hop⟩]

/-- What `JOIN 0` hands to `execPart`. -/
theorem joinedNames_leftName (hI : Inv s) (hc : s.cliAt x = some c) (hcmd : CmdIs ar "JOIN") (hlen : ar.length = 2) :
    ∃ names, s.joinedNames c.nick s.chs.keys = .ok names ∧ argD (ar.set 1 names.dropLast) 1 = leftName s x ar := by
  refine ⟨_, joinedNames_ok (Mid.refl hI hc) (fun hn => absurd (hn.unique hcmd) (by decide)) _
    fun k hk => ExtTreeMap.mem_keys.mp hk, ?_⟩
  rw [argD_of_getElem? (List.getElem?_set_self (by omega))]
  exact (if_pos hcmd).symm

/-- **Every call of a step** takes off a channel whoever comes next. -/
theorem call_takenOff (hg : Good cfg) {call : Erasure} (h : Erases cfg call) :
    ∃ (k : Str) (ch : Ch) (before : List Ptr) (p : Ptr) (after : List Ptr), cfg.srv.chs[k]? = some ch ∧
      takenOff cfg k = before ++ p :: after ∧ call.Takes k (before.foldl Ch.drop ch) p := by
  have hI : Inv cfg.srv := hg.inv
  cases h with
  | @part s x line lines todo call hcmd h =>
    obtain ⟨c, ch, hc, hch, hx, rfl⟩ := (partErases_iff hI).mp h
    refine ⟨_, ch, [], x, [], hch, ?_, partErases_takes hI hc hch hx⟩
    rw [← leftName_part hcmd]
    exact takenBy_part (.inl hcmd)
  | @joinZero s x d line lines todo names call hd hcmd hlen hz hnames h =>
    obtain ⟨names', hnames', hleft⟩ := joinedNames_leftName hI hd hcmd hlen
    rw [hnames'] at hnames
    cases hnames
    obtain ⟨c, ch, hc, hch, hx, rfl⟩ := (partErases_iff hI).mp h
    refine ⟨_, ch, [], x, [], hch, ?_, partErases_takes hI hc hch hx⟩
    rw [hleft]
    exact takenBy_part (.inr ⟨hcmd, hlen, hz⟩)
  | @kick s x line lines todo call hcmd h =>
    obtain ⟨c, ch, tDone, target, tTodo, hc, hch, hx, htargets, hon, rfl⟩ := (kickErases_iff hI).mp h
    refine ⟨_, ch, tDone.map s.getCli, s.getCli target, tTodo.map s.getCli, hch, ?_, takes_kick hI hch hx⟩
    show takenBy s x (splitCmdToArgs line) _ = _
    rw [takenBy_kick hcmd ⟨ch, hch, hx⟩, htargets, List.map_append, List.map_cons]
  | @cleanup s call h =>
    obtain ⟨c, fd, done, todo, removed, k, ks, ks', t, u, hfds, hloop, hct, hb, hkeys, hu⟩ := h
    have hnodup : (done ++ fd :: todo).Nodup := hfds ▸ nodup_toList
    rw [eraseClisLoop_eq done s hI (List.nodup_append.mp hnodup).1] at hloop
    cases hloop
    have hc : s.clis[fd]? = some c := by
      rw [getElem?_clis_without] at hct
      split at hct
      · cases hct
      · exact hct
    obtain ⟨ch', hch'⟩ := mem_chs.mp (ExtTreeMap.mem_keys.mp (hkeys ▸ List.mem_append_right ks (List.mem_cons_self ..)))
    rw [getElem?_chs_without] at hch'
    obtain ⟨ch, hch, rfl⟩ := Option.map_eq_some_iff.mp hch'
    obtain ⟨-, heq, htakes⟩ := cleanup_next hI hfds hc hch hkeys
    rw [heq] at hu
    cases hu
    refine ⟨k, ch, (s.leavers done).map (·.addr), c.addr, (s.leavers todo).map (·.addr), hch, ?_, ?_⟩
    · show (s.leavers s.fdsToErase.toList).map _ = _
      rw [hfds, leavers_append hc hb, List.map_append, List.map_cons]
    · rw [List.foldl_map]
      exact htakes

theorem mem_kickCh (hp : p ∈ ch.clis) (h : ∀ t ∈ targets, who t ≠ p) : p ∈ (kickCh who ch targets).clis := by
  induction targets generalizing ch with
  | nil => exact hp
  | cons t targets ih =>
    have hne := h t (by simp)
    unfold kickCh
    split
    · refine ih ?_ fun u hu => h u (by simp [hu])
      rw [clis_drop, mem_erase_iff]
      exact ⟨hne.symm, hp⟩
    · exact ih hp fun u hu => h u (by simp [hu])

/-- **Everyone who is on the channel when its turn comes** is taken off by a call: by a command, -/
theorem takenBy_call {line : Str} {lines : List Str} {todo : List (Nat × Revents)} (hI : Inv s)
    (hc : s.cliAt x = some c) (hch : s.chs[k]? = some ch) (htaken : takenBy s x (splitCmdToArgs line) k = before ++ p :: after)
    (hp : p ∈ ch.clis) (hstill : p ∉ before) :
    ∃ call, Erases ⟨s, .cmds x (line :: lines) todo⟩ call ∧ call.Takes k (before.foldl Ch.drop ch) p := by
  unfold takenBy at htaken
  split at htaken
  · rename_i hpart
    split at htaken
    · rename_i hk
      obtain ⟨rfl, rfl⟩ : before = [] ∧ x = p := by
        cases before with
        | nil =>
          cases htaken
          exact ⟨rfl, rfl⟩
        | cons b before => simp at htaken
      rcases hpart with hcmd | ⟨hcmd, hlen, hz⟩
      · rw [leftName_part hcmd] at hk
        subst hk
        exact ⟨_, .part hcmd ((partErases_iff hI).mpr ⟨c, ch, hc, hch, hp, rfl⟩), partErases_takes hI hc hch hp⟩
      · obtain ⟨names, hnames, hleft⟩ := joinedNames_leftName hI hc hcmd hlen
        rw [← hleft] at hk
        subst hk
        exact ⟨_, .joinZero hc hcmd hlen hz hnames ((partErases_iff hI).mpr ⟨c, ch, hc, hch, hp, rfl⟩),
          partErases_takes hI hc hch hp⟩
    · simp at htaken
  split at htaken
  · rename_i hkick
    obtain ⟨hcmd, rfl, hop⟩ := hkick
    have hx := (op_iff hch).mp hop
    obtain ⟨tDone, rest, htargets, rfl, hrest⟩ := List.map_eq_append_iff.mp htaken
    obtain ⟨target, tTodo, rfl, rfl, -⟩ := List.map_eq_cons_iff.mp hrest
    have hon : s.getCli target ∈ (kickCh s.getCli ch tDone).clis :=
      mem_kickCh hp fun t ht heq => hstill (heq ▸ List.mem_map_of_mem ht)
    exact ⟨_, .kick hcmd ((kickErases_iff hI).mpr ⟨c, ch, tDone, target, tTodo, hc, hch, hx, htargets, hon, rfl⟩),
      takes_kick hI hch hx⟩
  · simp at htaken

/-- or by the cleanup. -/
theorem takenOff_call (hg : Good cfg) (hch : cfg.srv.chs[k]? = some ch) (htaken : takenOff cfg k = before ++ p :: after)
    (hp : p ∈ ch.clis) (hstill : p ∉ before) :
    ∃ call, Erases cfg call ∧ call.Takes k (before.foldl Ch.drop ch) p := by
  obtain ⟨s, phase⟩ := cfg
  have hI : Inv s := hg.inv
  have hnil : ∀ l : List Ptr, l = [] → l ≠ before ++ p :: after := by
    rintro l rfl
    simp
  cases phase with
  | clis =>
    obtain ⟨cs, rest, hleavers, rfl, hrest⟩ := List.map_eq_append_iff.mp htaken
    obtain ⟨c, ds, rfl, rfl, -⟩ := List.map_eq_cons_iff.mp hrest
    obtain ⟨front, rest, hfds, rfl, hrest⟩ := List.filterMap_eq_append_iff.mp hleavers
    obtain ⟨skipped, fd, todo, rfl, hskipped, hc, -⟩ := List.filterMap_eq_cons_iff.mp hrest
    obtain ⟨hc, hb⟩ := Option.filter_eq_some_iff.mp hc
    rw [← List.append_assoc] at hfds
    have hmem : k ∈ (s.without (front ++ skipped)).chs.keys := by
      rw [ExtTreeMap.mem_keys, mem_chs]
      exact ⟨_, by rw [getElem?_chs_without, hch]; rfl⟩
    obtain ⟨ks, ks', hkeys⟩ := List.append_of_mem hmem
    obtain ⟨hct, hloop, htakes⟩ := cleanup_next hI hfds hc hch hkeys
    have hdone : (front ++ skipped).Nodup := (List.nodup_append.mp (hfds ▸ nodup_toList)).1
    refine ⟨_, .cleanup (.call c fd (front ++ skipped) todo _ k ks ks' _ _ hfds
      (eraseClisLoop_eq _ s hI hdone) hct (of_decide_eq_true hb) hkeys hloop), ?_⟩
    have hsame : s.leavers (front ++ skipped) = s.leavers front := by
      unfold leavers
      rw [List.filterMap_append, List.filterMap_eq_nil_iff.mpr hskipped, List.append_nil]
    rw [hsame] at htakes
    rw [List.foldl_map]
    exact htakes
  | cmds x lines todo =>
    cases lines with
    | nil => exact absurd htaken (hnil _ rfl)
    | cons line lines =>
      obtain ⟨⟨c, hc⟩, -⟩ := hg.author x (line :: lines) todo rfl
      exact takenBy_call hI hc hch htaken hp hstill
  | _ => exact absurd htaken (hnil _ rfl)

end FtIrc
