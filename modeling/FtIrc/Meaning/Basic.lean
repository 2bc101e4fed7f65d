import FtIrc.Exec.Dispatch

/-!
# What a command comes to

The modules of this directory give the result of every handler in closed form: a state in which the
channels and the records have been written, then the lines prepared (`sendAll`).  Here is what all
of them use.

* `updCh_sendAll`, `updCli_sendAll` — preparing lines commutes with the writes.
* `getCliOnCh_eq` — the scan of a channel for a nick is a test on the client of that nick.
* `nickList` — the text `users` returns, as a function of the members.
-/

namespace FtIrc

open Std Outcome Server

variable {s s' : Server} {x y p : Ptr} {ar : List Str} {c d : Cli} {k n name m : Str} {ch : Ch}
  {mail : Mail}

/-! ## Preparing lines, and writing -/

theorem updCh_sendAll (f : Ch → Ch) :
    ∀ (mail : Mail) (s : Server), (s.sendAll mail).updCh k f = (s.updCh k f).sendAll mail
  | [], _ => rfl
  | e :: mail, s => by
    rw [sendAll_cons, sendAll_cons, updCh_sendAll f mail]
    rfl

theorem markToErase_sendAll (fd : Nat) :
    ∀ (mail : Mail) (s : Server), (s.sendAll mail).markToErase fd = (s.markToErase fd).sendAll mail
  | [], _ => rfl
  | e :: mail, s => by
    rw [sendAll_cons, sendAll_cons, markToErase_sendAll fd mail]
    rfl

/-- Two writes to records that do not see each other. -/
theorem updCli_comm {f g : Cli → Cli} (hf : KeepsAddr f) (hg : KeepsAddr g)
    (h : ∀ c, f (g c) = g (f c)) : (s.updCli p g).updCli x f = (s.updCli x f).updCli p g := by
  have hmap : ((s.updCli p g).updCli x f).clis = ((s.updCli x f).updCli p g).clis := by
    refine ExtTreeMap.ext_getElem? fun fd => ?_
    simp only [getElem?_clis_updCli, Option.map_map]
    congr 1
    funext e
    show (if (if e.addr = p then g e else e).addr = x then f (if e.addr = p then g e else e)
      else (if e.addr = p then g e else e)) = (if (if e.addr = x then f e else e).addr = p then
        g (if e.addr = x then f e else e) else (if e.addr = x then f e else e))
    by_cases hp : e.addr = p
    · rw [if_pos hp]
      by_cases hx : e.addr = x
      · rw [if_pos hx, if_pos ((hg e).1.trans hx), if_pos ((hf e).1.trans hp), h]
      · rw [if_neg hx, if_neg fun h' => hx ((hg e).1.symm.trans h'), if_pos hp]
    · rw [if_neg hp]
      by_cases hx : e.addr = x
      · rw [if_pos hx, if_neg fun h' => hp ((hf e).1.symm.trans h')]
      · rw [if_neg hx, if_neg hp]
  show { s with clis := ((s.updCli p g).updCli x f).clis } =
    { s with clis := ((s.updCli x f).updCli p g).clis }
  rw [hmap]

theorem updCli_sendAll {f : Cli → Cli} (hf : KeepsAddr f)
    (h : ∀ m c, f (appendResp m c) = appendResp m (f c)) :
    ∀ (mail : Mail) (s : Server), (s.sendAll mail).updCli x f = (s.updCli x f).sendAll mail
  | [], _ => rfl
  | e :: mail, s => by
    rw [sendAll_cons, sendAll_cons, updCli_sendAll hf h mail]
    unfold push
    rw [updCli_comm hf (appendResp_keepsAddr _) (h e.2)]

theorem updCli_id : s.updCli x id = s := by
  have hmap : (s.updCli x id).clis = s.clis := by
    refine ExtTreeMap.ext_getElem? fun fd => ?_
    simp [getElem?_clis_updCli]
  show { s with clis := (s.updCli x id).clis } = s
  rw [hmap]

/-- A write that writes what is there. -/
theorem updCli_same {f : Cli → Cli} (hI : Inv s) (hc : s.cliAt x = some c) (hf : f c = c) :
    s.updCli x f = s := by
  rw [updCli_const hI hc, hf]
  exact (updCli_const hI hc id).symm.trans updCli_id

theorem updCh_updCh (f g : Ch → Ch) : (s.updCh k f).updCh k g = s.updCh k fun ch => g (f ch) := by
  have hmap : ((s.updCh k f).updCh k g).chs = (s.updCh k fun ch => g (f ch)).chs := by
    refine ExtTreeMap.ext_getElem? fun k' => ?_
    rw [getElem?_chs_updCh, getElem?_chs_updCh, getElem?_chs_updCh]
    split
    · rw [Option.map_map]
      rfl
    · rfl
  show { s with chs := ((s.updCh k f).updCh k g).chs } = { s with chs := (s.updCh k _).chs }
  rw [hmap]

/-- Writes to different channels do not see each other. -/
theorem updCh_comm {k' : Str} (hne : k ≠ k') (f g : Ch → Ch) :
    (s.updCh k f).updCh k' g = (s.updCh k' g).updCh k f := by
  have hmap : ((s.updCh k f).updCh k' g).chs = ((s.updCh k' g).updCh k f).chs := by
    refine ExtTreeMap.ext_getElem? fun j => ?_
    simp only [getElem?_chs_updCh]
    by_cases hj : j = k
    · rw [if_pos hj, if_neg fun hk => hne (hj.symm.trans hk), if_pos hj,
        if_neg fun hk => hne (hj.symm.trans hk)]
    · rw [if_neg hj, if_neg hj]
  show { s with chs := ((s.updCh k f).updCh k' g).chs } = { s with chs := ((s.updCh k' g).updCh k f).chs }
  rw [hmap]

theorem updCh_self (hch : s.chs[k]? = some ch) : (s.updCh k fun _ => ch) = s := by
  have hmap : (s.updCh k fun _ => ch).chs = s.chs := by
    refine ExtTreeMap.ext_getElem? fun k' => ?_
    rw [getElem?_chs_put hch]
    split
    · rename_i h
      rw [h, hch]
    · rfl
  show { s with chs := (s.updCh k fun _ => ch).chs } = s
  rw [hmap]

/-- A reply. -/
theorem reply_ok (hI : Inv s) (hc : s.cliAt p = some c) (m : Str) :
    s.prepareResp p m = .ok (s.sendAll [(p, m)]) := prepareResp_sendAll (deref_of_cliAt hI hc)

/-- A reply after other lines. -/
theorem reply_sendAll (hI : Inv s) (hc : s.cliAt p = some c) (m : Str) :
    (s.sendAll mail).prepareResp p m = .ok (s.sendAll (mail ++ [(p, m)])) := by
  rw [sendAll_append]
  exact prepareResp_sendAll (deref_sendAll (deref_of_cliAt hI hc))

/-- A broadcast after other lines. -/
theorem bcast_sendAll (hI : Inv s) (hch : s.chs[k]? = some ch) (m : Str) :
    (s.sendAll mail).prepareRespAuthorIncluding (some k) m =
      .ok (s.sendAll (mail ++ bcast ch m)) := by
  unfold prepareRespAuthorIncluding
  rw [derefCh_sendAll, derefCh_some hch, sendAll_append]
  refine prepareRespAll_ok _ _ fun p hp => ?_
  obtain ⟨d, hd, -⟩ := member_live hI hch (ExtTreeSet.mem_toList.mp hp)
  exact ⟨_, deref_sendAll hd⟩

/-- A broadcast to the others, after other lines. -/
theorem bcastOthers_sendAll (hI : Inv s) (hch : s.chs[k]? = some ch) (hx : s.cliAt x = some c)
    (m : Str) : (s.sendAll mail).prepareRespExceptAuthor x (some k) m =
      .ok (s.sendAll (mail ++ bcastOthers ch x m)) := by
  unfold prepareRespExceptAuthor
  rw [derefCh_sendAll, derefCh_some hch]
  refine prepareRespOthers_ok hI hx _ mail fun p hp => ?_
  obtain ⟨d, -, hd, -⟩ := member_live hI hch (ExtTreeSet.mem_toList.mp hp)
  exact ⟨d, hd⟩

/-! ## Who is where -/

/-- The client that answers to a nick is found on a channel exactly if it is a member. -/
theorem getCliOnCh_eq (hI : Inv s) (hch : s.chs[name]? = some ch) :
    s.getCliOnCh n name = .ok (if s.getCli n ∈ ch.clis then s.getCli n else NULL) := by
  obtain ⟨r, hr, ⟨rfl, hno⟩ | ⟨-, hrm, hrn, -⟩⟩ := getCliOnCh_spec (n := n) hI hch
  · rw [hr, if_neg]
    intro hm
    obtain ⟨d, -, hd, -⟩ := member_live hI hch hm
    obtain ⟨d', hd', hdn⟩ := getCli_ne_null hI (ne_null_of_cliAt hI hd)
    exact hno _ hm d' hd' hdn
  · rw [hr, hrn, if_pos hrm]

theorem getAdmOnCh_eq (hI : Inv s) (hch : s.chs[name]? = some ch) :
    s.getAdmOnCh n name = .ok (if s.getCli n ∈ ch.adms then s.getCli n else NULL) := by
  obtain ⟨r, hr, ⟨rfl, hno⟩ | ⟨-, hrm, hrn, -⟩⟩ := getAdmOnCh_spec (n := n) hI hch
  · rw [hr, if_neg]
    intro hm
    obtain ⟨d, -, hd, -⟩ := member_live hI hch (hI.adm name ch hch _ hm)
    obtain ⟨d', hd', hdn⟩ := getCli_ne_null hI (ne_null_of_cliAt hI hd)
    exact hno _ hm d' hd' hdn
  · rw [hr, hrn, if_pos hrm]

theorem getCli_self (hI : Inv s) (hc : s.cliAt x = some c) (hreg : c.registered = true) :
    s.getCli c.nick = x := getCli_eq hI hc (Cli.registered_iff.mp hreg).2.1 rfl

/-! ## The list of the members -/

/-- The nick of the client at an address. -/
def nickAt (s : Server) (p : Ptr) : Str := ((s.cliAt p).map (·.nick)).getD []

/-- The text `users` returns for the channel `ch`. -/
def nickList (s : Server) (ch : Ch) : Str :=
  if ch.size = 0 then str "no users"
  else ((ch.clis.toList.map fun p =>
    (if p ∈ ch.adms then str "@" ++ nickAt s p ++ str " " else nickAt s p ++ str " ")).flatten).dropLast

theorem nickAt_of_cliAt (h : s.cliAt p = some c) : nickAt s p = c.nick := by
  unfold nickAt
  rw [h]
  rfl

@[simp] theorem nickAt_sendAll : nickAt (s.sendAll mail) p = nickAt s p := by
  unfold nickAt
  rw [cliAt_sendAll, Option.map_map]
  rfl

@[simp] theorem nickList_sendAll : nickList (s.sendAll mail) ch = nickList s ch := by
  simp [nickList]

theorem userNames_eq (adms : ExtTreeSet Ptr) : ∀ ps : List Ptr, (∀ p ∈ ps, ∃ c, s.deref p = .ok c) →
    s.userNames adms ps = .ok (ps.map fun p =>
      (if p ∈ adms then str "@" ++ nickAt s p ++ str " " else nickAt s p ++ str " ")).flatten
  | [], _ => rfl
  | p :: ps, hlive => by
    obtain ⟨c, hc⟩ := hlive p (by simp)
    unfold userNames
    rw [hc, userNames_eq adms ps fun q hq => hlive q (by simp [hq]), List.map_cons, List.flatten_cons,
      nickAt_of_cliAt (deref_ok.mp hc).2]
    rfl

/-- The text `users` returns, also after lines have been prepared. -/
theorem users_sendAll (hI : Inv s) (hch : s.chs[k]? = some ch) (mail : Mail) :
    (s.sendAll mail).users (some k) = .ok (nickList s ch) := by
  rw [← show nickList (s.sendAll mail) ch = nickList s ch from nickList_sendAll]
  unfold users nickList
  show ((s.sendAll mail).derefCh (some k) >>= _) = _
  rw [derefCh_sendAll, derefCh_some hch]
  show (if ch.size = 0 then _ else (s.sendAll mail).userNames ch.adms ch.clis.toList >>= _) = _
  split
  · rfl
  · rw [userNames_eq ch.adms _ fun p hp => ?_]
    · rfl
    · obtain ⟨d, hd, -⟩ := member_live hI hch (ExtTreeSet.mem_toList.mp hp)
      exact ⟨_, deref_sendAll hd⟩

end FtIrc
