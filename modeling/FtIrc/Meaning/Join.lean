import FtIrc.Meaning.Leave
import FtIrc.Meaning.Registration

/-!
# What JOIN comes to

A name is answered with one line (`joinReply`), or the author is let in (`letIn`) to the channel,
which is created if need be (`openCh`), and told so with all members (`joinedMail`).  `joinRun` goes
through the list as `execJoin` does.  A list that fails has no result, so the theorems speak of a
command that has gone well.
-/

namespace FtIrc

open Std Outcome Server

variable {s s' u : Server} {x y p : Ptr} {ar : List Str} {c d me : Cli} {k n name m a1 pass : Str}
  {ch : Ch} {mail : Mail}

/-! ## One name -/

/-- The channel of the name, created if there is none. -/
def openCh (u : Server) (x : Ptr) (name : Str) : Server :=
  if u.getCh name = none then { u with chs := u.chs.insert name (Ch.new x) } else u

/-- Why a client is not let in. -/
def refusal (me : Cli) (ch : Ch) (name pass : Str) : Option Str :=
  if ch.pass ≠ [] ∧ pass ≠ ch.pass then some (str "475 " ++ name ++ str " :Cannot join channel (+k)")
  else if ch.limit ≤ ch.size then some (str "471 " ++ name ++ str " :Cannot join channel (+l)")
  else if ch.optI = true ∧ name ∉ me.invits then
    some (str "473 " ++ name ++ str " :Cannot join channel (+i)")
  else none

/-- The channel with one more member. -/
def Ch.enter (ch : Ch) (x : Ptr) : Ch := { ch with clis := ch.clis.insert x }

/-- The author is on the channel, and its invitation is used up. -/
def letIn (u : Server) (x : Ptr) (me : Cli) (name : Str) : Server :=
  useInvitation (u.updCh name fun ch => ch.enter x) x me name

/-- The line `JOIN` announces. -/
def joinLine (c : Cli) (name : Str) : Str := str ":" ++ hostPrefix c ++ str " JOIN " ++ name

/-- The line with the members. -/
def namesLine (c : Cli) (name us : Str) : Str :=
  str ":localhost 353 " ++ localPrefix c ++ str " = " ++ name ++ str " :" ++ us

/-- The lines for a name that has been joined. -/
def joinedMail (u : Server) (x : Ptr) (c : Cli) (name : Str) (ch : Ch) : Mail :=
  bcast ch (joinLine c name) ++
    (if ch.topic ≠ [] then [(x, str "332 " ++ c.nick ++ str " " ++ name ++ str " :" ++ ch.topic)]
      else []) ++
    bcast ch (namesLine c name (nickList u ch))

theorem refusal_eq_none : refusal me ch name pass = none ↔ Admits me ch name pass := by
  unfold refusal Admits
  by_cases hkey : ch.pass ≠ [] ∧ pass ≠ ch.pass
  · rw [if_pos hkey]
    exact iff_of_false (by simp) fun h => hkey.2 (h.1 hkey.1)
  rw [if_neg hkey]
  by_cases hlim : ch.limit ≤ ch.size
  · rw [if_pos hlim]
    exact iff_of_false (by simp) fun h => absurd h.2.1 (Nat.not_lt.mpr hlim)
  rw [if_neg hlim]
  by_cases hinv : ch.optI = true ∧ name ∉ me.invits
  · rw [if_pos hinv]
    exact iff_of_false (by simp) fun h => hinv.2 (h.2.2 hinv.1)
  rw [if_neg hinv]
  push Not at hkey hlim hinv
  exact iff_of_true rfl ⟨hkey, hlim, hinv⟩

theorem cliAt_openCh : (openCh u x name).cliAt p = u.cliAt p := by
  unfold openCh
  split <;> rfl

theorem openCh_sendAll : ∀ (mail : Mail) (u : Server),
    openCh (u.sendAll mail) x name = (openCh u x name).sendAll mail
  | [], _ => rfl
  | e :: mail, u => by
    rw [sendAll_cons, sendAll_cons, openCh_sendAll mail]
    unfold openCh
    have hget : (u.push e.1 e.2).getCh name = u.getCh name := rfl
    rw [hget]
    split <;> rfl

theorem useInvitation_sendAll (h : ∀ k, k ∈ d.invits ↔ k ∈ me.invits) :
    useInvitation (u.sendAll mail) x d name = (useInvitation u x me name).sendAll mail := by
  unfold useInvitation
  by_cases hm : name ∈ me.invits
  · rw [if_pos hm, if_pos ((h name).mpr hm)]
    exact updCli_sendAll (f := fun c => { c with invits := c.invits.erase name })
      (fun _ => ⟨rfl, rfl⟩) (fun _ _ => rfl) mail u
  · rw [if_neg hm, if_neg fun hd => hm ((h name).mp hd)]

/-- A name that is no channel, or the key of one, is the key of one afterwards. -/
theorem openCh_spec (hI : Inv u) (hreg : IsReg u x) (hname : ChName name)
    (hkey : u.getCh name = none ∨ name ∈ u.chs) :
    Inv (openCh u x name) ∧ ∃ ch, (openCh u x name).chs[name]? = some ch ∧
      (u.chs[name]? = some ch ∨ u.chs[name]? = none ∧ ch = Ch.new x) ∧
      ∀ k, k ≠ name → (openCh u x name).chs[k]? = u.chs[k]? := by
  unfold openCh
  by_cases hnew : u.getCh name = none
  · have hfresh := getCh_none_iff.mp hnew
    have hnot : u.chs[name]? = none := by
      cases hch : u.chs[name]? with
      | none => rfl
      | some ch => exact absurd rfl (hfresh name (mem_chs.mpr ⟨ch, hch⟩))
    rw [if_pos hnew]
    refine ⟨inv_newCh hI hreg hname hfresh, Ch.new x, ?_, .inr ⟨hnot, rfl⟩, fun k hk => ?_⟩
    · rw [getElem?_chs_insert, if_pos rfl]
    · rw [getElem?_chs_insert, if_neg hk]
  · obtain ⟨ch, hch⟩ := mem_chs.mp (hkey.resolve_left hnew)
    rw [if_neg hnew]
    exact ⟨hI, ch, hch, .inl hch, fun _ _ => rfl⟩

theorem letIn_spec (hI : Inv u) (hc : u.cliAt x = some me) (hreg : me.registered = true)
    (hch : u.chs[name]? = some ch) :
    Inv (letIn u x me name) ∧ (∀ k, (letIn u x me name).chs[k]? =
      if k = name then some (ch.enter x) else u.chs[k]?) ∧
    (∃ me', (letIn u x me name).cliAt x = some me' ∧ me'.nick = me.nick ∧ me'.registered = true ∧
      ∀ k, k ≠ name → (k ∈ me'.invits ↔ k ∈ me.invits)) ∧
    ∀ q, nickAt (letIn u x me name) q = nickAt u q := by
  have hIu : Inv (u.updCh name fun ch => ch.enter x) := by
    rw [updCh_const hch]
    refine inv_updCh hI hch (fun q hq => ?_) fun q hq => mem_insert_iff.mpr (.inr (hI.adm name ch hch q hq))
    rcases mem_insert_iff.mp hq with rfl | hq
    · exact .inr ⟨me, hc, hreg⟩
    · exact .inl hq
  have hcu : (u.updCh name fun ch => ch.enter x).cliAt x = some me := hc
  have hchs : ∀ k, (letIn u x me name).chs[k]? =
      if k = name then some (ch.enter x) else u.chs[k]? := fun k => by
    rw [letIn, chs_useInvitation, updCh_const hch fun ch => ch.enter x, getElem?_chs_put hch]
  refine ⟨?_, hchs, ?_⟩
  · unfold letIn useInvitation
    split
    · rw [updCli_const hIu hcu]
      exact inv_updCli hIu hcu ⟨rfl, rfl, id, .inl rfl⟩
    · exact hIu
  · have hkeep : KeepsAddr fun c : Cli => { c with invits := c.invits.erase name } :=
      fun _ => ⟨rfl, rfl⟩
    unfold letIn useInvitation
    split
    · refine ⟨⟨{ me with invits := me.invits.erase name }, ?_, rfl, hreg, fun k hk => ?_⟩, fun q => ?_⟩
      · rw [cliAt_updCli hkeep, if_pos rfl, hcu]
        rfl
      · show k ∈ me.invits.erase name ↔ _
        rw [ExtTreeSet.mem_erase, ne_eq, Std.compare_eq_iff_eq]
        exact and_iff_right hk.symm
      · unfold nickAt
        rw [cliAt_updCli hkeep, cliAt_updCh]
        split
        · rw [Option.map_map]
          rfl
        · rfl
    · exact ⟨⟨me, hcu, rfl, hreg, fun _ _ => Iff.rfl⟩, fun _ => rfl⟩

theorem nickList_congr (h : ∀ q, nickAt s q = nickAt u q) : nickList s ch = nickList u ch := by
  unfold nickList
  simp only [h]

/-- The end of the loop body: a refusal, or the admission with its lines. -/
theorem joinCh_run (hI : Inv u) (hc : u.cliAt x = some me) (hreg : me.registered = true)
    (hch : u.chs[name]? = some ch) : (u.sendAll mail).joinCh x c name pass = .ok
      (match refusal me ch name pass with
      | some m => u.sendAll (mail ++ [(x, m)])
      | none => (letIn u x me name).sendAll (mail ++ joinedMail u x c name (ch.enter x))) := by
  have hget : u.getCh name = some name := getCh_self hI (mem_chs.mpr ⟨ch, hch⟩)
  unfold joinCh refusal
  rw [deref_sendAll (deref_of_cliAt hI hc), getCh_sendAll, hget]
  show ((u.sendAll mail).derefCh (some name) >>= _) = _
  rw [derefCh_sendAll, derefCh_some hch]
  show (if ch.pass ≠ [] ∧ pass ≠ ch.pass then _ else if ch.limit ≤ ch.size then _ else
    if ch.optI = true ∧ name ∉ me.invits then _ else (u.sendAll mail).setCh name (fun ch => ch.enter x) >>= _) = _
  by_cases hkey : ch.pass ≠ [] ∧ pass ≠ ch.pass
  · rw [if_pos hkey, if_pos hkey]
    exact reply_sendAll hI hc _
  rw [if_neg hkey, if_neg hkey]
  by_cases hlim : ch.limit ≤ ch.size
  · rw [if_pos hlim, if_pos hlim]
    exact reply_sendAll hI hc _
  rw [if_neg hlim, if_neg hlim]
  by_cases hinv : ch.optI = true ∧ name ∉ me.invits
  · rw [if_pos hinv, if_pos hinv]
    exact reply_sendAll hI hc _
  rw [if_neg hinv, if_neg hinv, setCh_ok (by rw [getCh_sendAll, hget]), updCh_sendAll]
  obtain ⟨hIv, hchs, ⟨me', hme', -⟩, hnick⟩ := letIn_spec hI hc hreg hch
  have hchv : (letIn u x me name).chs[name]? = some (ch.enter x) := by rw [hchs, if_pos rfl]
  have hgetv : (letIn u x me name).getCh name = some name := getCh_self hIv (mem_chs.mpr ⟨_, hchv⟩)
  have hinvit : useInvitation ((u.updCh name fun ch => ch.enter x).sendAll mail) x
      (me.receive (inbox x mail)) name = (letIn u x me name).sendAll mail :=
    useInvitation_sendAll fun _ => Iff.rfl
  have hlist : nickList (letIn u x me name) (ch.enter x) = nickList u (ch.enter x) := nickList_congr hnick
  -- the last line, after any others
  have hlast : ∀ mail', ((letIn u x me name).sendAll mail').users
        (((letIn u x me name).sendAll mail').getCh name) >>= (fun us =>
          ((letIn u x me name).sendAll mail').prepareRespAuthorIncluding
            (((letIn u x me name).sendAll mail').getCh name) (namesLine c name us)) =
      .ok ((letIn u x me name).sendAll (mail' ++
        bcast (ch.enter x) (namesLine c name (nickList u (ch.enter x))))) := by
    intro mail'
    rw [getCh_sendAll, hgetv, users_sendAll hIv hchv, hlist]
    exact bcast_sendAll hIv hchv _
  show ((useInvitation _ x (me.receive (inbox x mail)) name).prepareRespAuthorIncluding
    ((useInvitation _ x (me.receive (inbox x mail)) name).getCh name) (joinLine c name) >>= _) = _
  rw [hinvit, getCh_sendAll, hgetv, bcast_sendAll hIv hchv]
  show (((letIn u x me name).sendAll _).derefCh (((letIn u x me name).sendAll _).getCh name) >>= _) = _
  rw [getCh_sendAll, hgetv, derefCh_sendAll, derefCh_some hchv]
  show (if (ch.enter x).topic ≠ [] then ((letIn u x me name).sendAll _).prepareResp x _ >>= _ else _) = _
  unfold joinedMail
  by_cases ht : (ch.enter x).topic ≠ []
  · rw [if_pos ht, if_pos ht, reply_sendAll hIv hme']
    refine (hlast _).trans ?_
    simp only [List.append_assoc]
  · rw [if_neg ht, if_neg ht, List.append_nil]
    refine (hlast _).trans ?_
    simp only [List.append_assoc]

/-! ## The list -/

/-- The reply that ends the loop of `execJoin`. -/
def tooManyChannels (a1 : Str) : Str := str "405 " ++ a1 ++ str " :You have joined too many channels"

/-- What is done for one name that is valid and not a channel of the author: the state, the lines. -/
def joinOne (u : Server) (x : Ptr) (c : Cli) (name pass : Str) : Server × Mail :=
  match u.cliAt x, (openCh u x name).chs[name]? with
  | some me, some ch =>
    match refusal me ch name pass with
    | some m => (u, [(x, m)])
    | none => (letIn (openCh u x name) x me name, joinedMail u x c name (ch.enter x))
  | _, _ => (u, [])

/-- The channels and records after the names, and the lines. -/
def joinRun (x : Ptr) (c : Cli) (a1 : Str) : List Str → List Str → Server → Server × Mail
  | [], _, u => (u, [])
  | name :: names, passes, u =>
    if MAX_CHS_PER_USER - 1 < u.nbChannels x then (u, [(x, tooManyChannels a1)])
    else if badName name then
      let r := joinRun x c a1 names passes u
      (r.1, (x, str "403 " ++ name ++ str " :No such channel") :: r.2)
    else if On u x name then
      let r := joinRun x c a1 names passes u
      (r.1, (x, str ":you are already on channel " ++ name) :: r.2)
    else
      let o := joinOne u x c name (passes.headD [])
      let r := joinRun x c a1 names passes.tail o.1
      (r.1, o.2 ++ r.2)

/-- A name that is valid and not a channel of the author. -/
theorem joinOne_run (c : Cli) (pass : Str) (hI : Inv u) (hc : u.cliAt x = some me)
    (hreg : me.registered = true) (hname : ChName name) (hkey : u.getCh name = none ∨ name ∈ u.chs)
    (mail : Mail) :
    ((if (u.sendAll mail).getCh name = none then
        { (u.sendAll mail) with chs := (u.sendAll mail).chs.insert name (Ch.new x) }
      else u.sendAll mail).joinCh x c name pass =
        .ok ((joinOne u x c name pass).1.sendAll (mail ++ (joinOne u x c name pass).2))) ∧
      Inv (joinOne u x c name pass).1 ∧
      ∃ me', (joinOne u x c name pass).1.cliAt x = some me' ∧ me'.nick = me.nick ∧
        me'.registered = true := by
  obtain ⟨hIv, ch, hch, hold, -⟩ := openCh_spec hI ⟨me, hc, hreg⟩ hname hkey
  have hcv : (openCh u x name).cliAt x = some me := by rw [cliAt_openCh, hc]
  have hopen : (if (u.sendAll mail).getCh name = none then
      { (u.sendAll mail) with chs := (u.sendAll mail).chs.insert name (Ch.new x) }
    else u.sendAll mail) = (openCh u x name).sendAll mail := openCh_sendAll mail u
  have hlist : nickList (openCh u x name) (ch.enter x) = nickList u (ch.enter x) :=
    nickList_congr fun q => by rw [nickAt, nickAt, cliAt_openCh]
  have hone : joinOne u x c name pass = match refusal me ch name pass with
      | some m => (u, [(x, m)])
      | none => (letIn (openCh u x name) x me name, joinedMail u x c name (ch.enter x)) := by
    unfold joinOne
    rw [hc, hch]
  rw [hopen, joinCh_run hIv hcv hreg hch, hone]
  cases hr : refusal me ch name pass with
  | none =>
    obtain ⟨hIl, -, ⟨me', hme', hnick, hreg', -⟩, -⟩ := letIn_spec hIv hcv hreg hch
    refine ⟨?_, hIl, me', hme', hnick, hreg'⟩
    simp only [joinedMail, hlist]
  | some m =>
    -- a new channel refuses nobody
    have hsame : openCh u x name = u := by
      unfold openCh
      rcases hold with hold | ⟨-, rfl⟩
      · rw [if_neg (by rw [getCh_self hI (mem_chs.mpr ⟨ch, hold⟩)]; simp)]
      · have hin : Admits me (Ch.new x) name pass :=
          ⟨fun hne => absurd rfl hne, (by decide : 1 < UINT_MAX), fun h => by cases h⟩
        rw [refusal_eq_none.mpr hin] at hr
        cases hr
    rw [hsame]
    exact ⟨rfl, hI, me, hc, rfl, hreg⟩

/-- **The loop of `execJoin`**, when it goes well. -/
theorem joinLoop_run : ∀ (names passes : List Str) (u : Server) (me : Cli) (mail : Mail),
    (∀ n ∈ names, COMMA ∉ n) → Inv u → u.cliAt x = some me → me.registered = true →
    c.nick = me.nick → joinLoop x c a1 names passes (u.sendAll mail) = .ok s' →
    s' = (joinRun x c a1 names passes u).1.sendAll (mail ++ (joinRun x c a1 names passes u).2)
  | [], _, u, _, mail, _, _, _, _, _, h => by
    cases h
    rw [joinRun, List.append_nil]
  | name :: names, passes, u, me, mail, hcomma, hI, hc, hreg, hnick, h => by
    have hrest := fun passes v me' mail => joinLoop_run names passes v me' mail
      fun n hn => hcomma n (by simp [hn])
    have hreply : ∀ m, ((u.sendAll mail).prepareResp x m >>= joinLoop x c a1 names passes) = .ok s' →
        s' = (joinRun x c a1 names passes u).1.sendAll
          (mail ++ (x, m) :: (joinRun x c a1 names passes u).2) := by
      intro m hm
      rw [reply_sendAll hI hc] at hm
      have hgo := hrest passes u me (mail ++ [(x, m)]) hI hc hreg hnick hm
      rw [List.append_assoc] at hgo
      exact hgo
    unfold joinLoop at h
    unfold joinRun
    rw [nbChannels_sendAll, badChName_ok] at h
    by_cases hmany : MAX_CHS_PER_USER - 1 < u.nbChannels x
    · rw [if_pos hmany, reply_sendAll hI hc] at h
      rw [if_pos hmany]
      cases h
      rfl
    rw [if_neg hmany] at h
    rw [if_neg hmany]
    replace h : (if badName name = true then _ >>= _ else
      (u.sendAll mail).getCliOnCh c.nick name >>= _) = Except.ok s' := h
    by_cases hbad : badName name = true
    · rw [if_pos hbad] at h
      rw [if_pos hbad]
      exact hreply _ h
    rw [if_neg hbad, getCliOnCh_sendAll] at h
    rw [if_neg hbad]
    have hname : ChName name := chName_of_badName (by simpa using hbad) (hcomma name (by simp))
    -- the name is no channel, or a key
    have hkey : u.getCh name = none ∨ name ∈ u.chs := by
      by_contra hno
      push Not at hno
      rw [getCliOnCh_misspelt hno.1 hno.2] at h
      cases h
    have hscan : u.getCliOnCh c.nick name = .ok (if On u x name then x else NULL) := by
      rcases hkey with hg | hk
      · rw [getCliOnCh_none hg, if_neg fun ho => getCh_none_iff.mp hg name (mem_of_on ho) rfl]
      · obtain ⟨ch, hch⟩ := mem_chs.mp hk
        rw [getCliOnCh_self hI hch hc hnick]
        simp only [on_iff hch]
    rw [hscan] at h
    by_cases hon : On u x name
    · rw [if_pos hon] at h
      replace h : (if x ≠ NULL then _ >>= _ else _) = Except.ok s' := h
      rw [if_pos (ne_null_of_cliAt hI hc)] at h
      rw [if_pos hon]
      exact hreply _ h
    · rw [if_neg hon] at h
      rw [if_neg hon]
      obtain ⟨hone, hIo, me', hme', hnick', hreg'⟩ :=
        joinOne_run c (passes.headD []) hI hc hreg hname hkey mail
      replace h : ((if (u.sendAll mail).getCh name = none then
          { (u.sendAll mail) with chs := (u.sendAll mail).chs.insert name (Ch.new x) }
        else u.sendAll mail).joinCh x c name (passes.headD []) >>=
          joinLoop x c a1 names passes.tail) = Except.ok s' := h
      rw [hone] at h
      have hgo := hrest passes.tail _ me' _ hIo hme' hreg' (hnick.trans hnick'.symm) h
      rw [List.append_assoc] at hgo
      exact hgo

/-! ## The command -/

/-- `JOIN` with a list. -/
theorem execJoin_run (hI : Inv s) (hc : s.cliAt x = some c) (hreg : c.registered = true)
    (ha1 : ar[1]? = some a1) (hz : ¬ (ar.length = 2 ∧ a1 = str "0")) (h : s.execJoin x ar = .ok s') :
    s' = if tooManyTargets (splitArgToSubargs a1) = true then
        s.sendAll [(x, a1 ++ str " :407 recipients. Too many targets.")]
      else (joinRun x c a1 (splitArgToSubargs a1) (joinKeys ar) s).1.sendAll
        (joinRun x c a1 (splitArgToSubargs a1) (joinKeys ar) s).2 := by
  rw [execJoin_eq hI hc hreg ha1 hz] at h
  split at h
  · rename_i hmany
    rw [reply_ok hI hc] at h
    rw [if_pos hmany]
    cases h
    rfl
  · rename_i hfew
    rw [if_neg hfew]
    exact joinLoop_run _ _ s c [] (fun n hn => splitArgToSubargs_comma hn) hI hc hreg rfl h

/-- `JOIN 0` is `PART` with the list of all channels of the author. -/
theorem execJoin_zero (hI : Inv s) (hc : s.cliAt x = some c) (hreg : c.registered = true)
    (hcmd : CmdIs ar "JOIN") (hlen : ar.length = 2) (ha1 : ar[1]? = some (str "0")) :
    s.execJoin x ar = s.execPart x (ar.set 1 (allNames s x)) := by
  have hnick : ¬ CmdIs ar "NICK" := fun hn => absurd (hn.unique hcmd) (by decide)
  unfold execJoin
  rw [deref_of_cliAt hI hc]
  show (if c.registered = false then _ else if ar.length < 2 then _ else arg ar 1 >>= _) = _
  rw [if_neg (by simp [hreg]), if_neg (by omega), arg_ok ha1]
  show (if ar.length = 2 ∧ str "0" = str "0" then s.joinedNames c.nick s.chs.keys >>= _ else _) = _
  rw [if_pos ⟨hlen, rfl⟩,
    joinedNames_ok (.refl hI hc) hnick _ fun k hk => ExtTreeMap.mem_keys.mp hk]
  rfl

end FtIrc
