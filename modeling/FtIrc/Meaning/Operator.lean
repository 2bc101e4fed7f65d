import FtIrc.Meaning.Registration

/-!
# What INVITE and TOPIC come to

Both test the membership of the author before they look at the channel.  `inviteDone` writes the
record of the invited client, `topicDone` the channel.
-/

namespace FtIrc

open Std Outcome Server

variable {s s' : Server} {x y p : Ptr} {ar : List Str} {c d : Cli} {k n name m a1 a2 text : Str}
  {ch : Ch} {mail : Mail}

/-! ## INVITE -/

/-- The line `INVITE` delivers. -/
def inviteLine (c : Cli) (a1 a2 : Str) : Str :=
  str ":" ++ hostPrefix c ++ str " INVITE " ++ a1 ++ str " " ++ a2

/-- The author may invite to the channel. -/
def MayInvite (x : Ptr) (ch : Ch) : Prop := x ∈ ch.clis ∧ (x ∈ ch.adms ∨ ch.optI = false)

instance {ch : Ch} : Decidable (MayInvite x ch) := by
  unfold MayInvite
  infer_instance

/-- The client that bears the nick `a1` is invited to `a2`. -/
def Invites (s : Server) (x : Ptr) (a1 a2 : Str) : Prop :=
  s.getCli a1 ≠ NULL ∧ ∃ ch, s.chs[a2]? = some ch ∧ MayInvite x ch ∧ s.getCli a1 ∉ ch.clis

instance : Decidable (Invites s x a1 a2) :=
  decidable_of_iff (s.getCli a1 ≠ NULL ∧
    (s.chs[a2]?).any (fun ch => MayInvite x ch ∧ s.getCli a1 ∉ ch.clis) = true)
    (by simp [Invites, Option.any_eq_true])

def inviteMail (s : Server) (x : Ptr) (c : Cli) (a1 a2 : Str) : Mail :=
  if s.getCli a1 = NULL then [(x, str "401 " ++ a1 ++ str " :No such nick")]
  else if s.getCh a2 = none then [(x, str "403 " ++ a1 ++ str " :No such channel")]
  else
    match s.chs[a2]? with
    | some ch =>
      if x ∉ ch.clis then [(x, str "442 " ++ a2 ++ str " :You're not on that channel")]
      else if x ∉ ch.adms ∧ ch.optI = true then
        [(x, str "482 " ++ a2 ++ str " :You're not channel operator")]
      else if s.getCli a1 ∈ ch.clis then
        [(x, str "443 " ++ a1 ++ str " " ++ a2 ++ str " :is already on channel")]
      else
        [(x, str ":" ++ hostPrefix c ++ str " 341 " ++ a1 ++ str " " ++ a2),
          (s.getCli a1, inviteLine c a1 a2)] ++ bcast ch (inviteLine c a1 a2)
    | none => []

def inviteDone (s : Server) (x : Ptr) (a1 a2 : Str) : Server :=
  if Invites s x a1 a2 then
    s.updCli (s.getCli a1) fun d => { d with invits := d.invits.insert a2 }
  else s

theorem execInvite_run (hI : Inv s) (hc : s.cliAt x = some c) (hreg : c.registered = true)
    (ha1 : ar[1]? = some a1) (ha2 : ar[2]? = some a2)
    (hsafe : s.getCli a1 ≠ NULL → KeySpelled s a2) :
    s.execInvite x ar = .ok ((inviteDone s x a1 a2).sendAll (inviteMail s x c a1 a2)) := by
  have hlt := (List.getElem?_eq_some_iff.mp ha2).1
  -- nobody is invited
  have hreply : ∀ m, ¬ Invites s x a1 a2 →
      s.prepareResp x m = .ok ((inviteDone s x a1 a2).sendAll [(x, m)]) := fun m hno => by
    unfold inviteDone
    rw [if_neg hno]
    exact reply_ok hI hc m
  unfold execInvite
  rw [deref_of_cliAt hI hc]
  show (if c.registered = false then _ else if ar.length < 3 then _ else arg ar 1 >>= _) = _
  rw [if_neg (by simp [hreg]), if_neg (by omega), arg_ok ha1]
  show (arg ar 2 >>= _) = _
  rw [arg_ok ha2]
  show (if s.getCli a1 = NULL then _ else if s.getCh a2 = none then _ else
    s.getCliOnCh c.nick a2 >>= _) = _
  unfold inviteMail
  by_cases hto : s.getCli a1 = NULL
  · rw [if_pos hto, if_pos hto]
    exact hreply _ fun h => h.1 hto
  rw [if_neg hto, if_neg hto]
  by_cases hget : s.getCh a2 = none
  · rw [if_pos hget, if_pos hget]
    refine hreply _ ?_
    rintro ⟨-, ch, hch, -⟩
    rw [getCh_self hI (mem_chs.mpr ⟨ch, hch⟩)] at hget
    cases hget
  have hmem := hsafe hto hget
  obtain ⟨ch, hch⟩ := mem_chs.mp hmem
  rw [if_neg hget, if_neg hget, if_neg hget, getCliOnCh_self hI hch hc rfl, hch]
  by_cases hx : x ∈ ch.clis
  swap
  · rw [if_neg hx]
    show s.prepareResp x _ = .ok ((inviteDone s x a1 a2).sendAll (if x ∉ ch.clis then _ else _))
    rw [if_pos hx]
    refine hreply _ ?_
    rintro ⟨-, ch', hch', hmay, -⟩
    rw [hch] at hch'
    cases hch'
    exact hx hmay.1
  rw [if_pos hx]
  show (if x = NULL then _ else s.getAdmOnCh c.nick a2 >>= _) =
    .ok ((inviteDone s x a1 a2).sendAll (if x ∉ ch.clis then _ else _))
  rw [if_neg (ne_null_of_cliAt hI hc), if_neg (not_not.mpr hx), getAdmOnCh_self hI hch hc rfl,
    getCh_self hI hmem]
  show (s.derefCh (some a2) >>= _) = _
  rw [derefCh_some hch]
  show (if (if x ∈ ch.adms then x else NULL) = NULL ∧ ch.optI = true then _ else
    s.getCliOnCh a1 a2 >>= _) = _
  have hadm : (if x ∈ ch.adms then x else NULL) = NULL ↔ x ∉ ch.adms := by
    by_cases hop : x ∈ ch.adms
    · rw [if_pos hop]
      exact iff_of_false (ne_null_of_cliAt hI hc) (not_not.mpr hop)
    · rw [if_neg hop]
      exact iff_of_true rfl hop
  simp only [hadm]
  by_cases hop : x ∉ ch.adms ∧ ch.optI = true
  · rw [if_pos hop, if_pos hop]
    refine hreply _ ?_
    rintro ⟨-, ch', hch', ⟨-, hmay⟩, -⟩
    rw [hch] at hch'
    cases hch'
    rcases hmay with h | h
    · exact hop.1 h
    · rw [hop.2] at h
      cases h
  rw [if_neg hop, if_neg hop, getCliOnCh_eq hI hch]
  by_cases hon : s.getCli a1 ∈ ch.clis
  · rw [if_pos hon, if_pos hon]
    show (if s.getCli a1 ≠ NULL then s.prepareResp x _ else _) = _
    rw [if_pos hto]
    refine hreply _ ?_
    rintro ⟨-, ch', hch', -, hno⟩
    rw [hch] at hch'
    cases hch'
    exact hno hon
  · obtain ⟨d, hd, -⟩ := getCli_ne_null hI hto
    have hinv : Invites s x a1 a2 := by
      refine ⟨hto, ch, hch, ⟨hx, ?_⟩, hon⟩
      by_cases hadm : x ∈ ch.adms
      · exact .inl hadm
      · refine .inr ?_
        cases hi : ch.optI with
        | false => rfl
        | true => exact absurd ⟨hadm, hi⟩ hop
    have hkeep : KeepsAddr fun d : Cli => { d with invits := d.invits.insert a2 } :=
      fun _ => ⟨rfl, rfl⟩
    rw [if_neg hon, if_neg hon]
    show (s.deref (s.getCli a1) >>= _) = _
    rw [deref_of_cliAt hI hd]
    -- the record of the invited client is written, then three lines are prepared
    have hIu : Inv (s.updCli (s.getCli a1) fun d => { d with invits := d.invits.insert a2 }) := by
      rw [updCli_const hI hd]
      exact inv_updCli hI hd ⟨rfl, rfl, id, .inl rfl⟩
    have hat : ∀ {q e}, s.cliAt q = some e → ∃ e', (s.updCli (s.getCli a1) fun d =>
        { d with invits := d.invits.insert a2 }).cliAt q = some e' := by
      intro q e he
      rw [cliAt_updCli hkeep, he]
      split
      · exact ⟨_, rfl⟩
      · exact ⟨e, rfl⟩
    obtain ⟨cx, hcx⟩ := hat hc
    obtain ⟨cd, hcd⟩ := hat hd
    have hgetu : (s.updCli (s.getCli a1) fun d =>
        { d with invits := d.invits.insert a2 }).getCli a1 = s.getCli a1 :=
      getCli_updCli hkeep (fun _ => rfl) a1
    unfold inviteDone
    rw [if_pos hinv]
    generalize hu : (s.updCli (s.getCli a1) fun d =>
      { d with invits := d.invits.insert a2 }) = u at hIu hcx hcd hgetu ⊢
    have hchu : u.chs[a2]? = some ch := by rw [← hu]; exact hch
    have hgetCh : u.getCh a2 = some a2 := getCh_self hIu (mem_chs.mpr ⟨ch, hchu⟩)
    show (u.prepareResp x _ >>= fun t => t.prepareResp (t.getCli a1) _ >>= fun t =>
      t.prepareRespAuthorIncluding (t.getCh a2) _) = _
    rw [reply_ok hIu hcx]
    show ((u.sendAll _).prepareResp ((u.sendAll _).getCli a1) _ >>= fun t =>
      t.prepareRespAuthorIncluding (t.getCh a2) _) = _
    rw [getCli_sendAll, hgetu, reply_sendAll hIu hcd]
    show (u.sendAll _).prepareRespAuthorIncluding ((u.sendAll _).getCh a2) _ = _
    rw [getCh_sendAll, hgetCh, bcast_sendAll hIu hchu]
    rfl

/-! ## TOPIC -/

/-- The author may see and set the topic. -/
def MayTopic (x : Ptr) (ch : Ch) : Prop := x ∈ ch.clis ∧ (x ∈ ch.adms ∨ ch.optT = false)

instance {ch : Ch} : Decidable (MayTopic x ch) := by
  unfold MayTopic
  infer_instance

/-- The topic that the text `a2` stands for. -/
def newTopic (a2 : Str) : Str := if a2 = str ":" ∨ a2 = [] then [] else a2

def noTopicLine (c : Cli) (a1 : Str) : Str := str "331 :" ++ c.nick ++ str " " ++ a1 ++ str " :No topic is set"

/-- The lines for a topic that is set. -/
def setTopicMail (x : Ptr) (c : Cli) (a1 a2 : Str) (ch : Ch) : Mail :=
  if a2 = str ":" ∨ a2 = [] then
    bcast ch (str ":" ++ c.nick ++ str "@localhost" ++ str " TOPIC " ++ a1 ++ str " :No topic is set") ++
      [(x, noTopicLine c a1)]
  else
    (x, str "332 :" ++ c.nick ++ str " " ++ a1 ++ str " :1" ++ a2) ::
      bcast ch (str ":" ++ c.nick ++ str "@localhost" ++ str " TOPIC " ++ a1 ++ str " :2" ++ a2)

/-- The lines of `TOPIC`; without a text the topic is told. -/
def topicMail (s : Server) (x : Ptr) (c : Cli) (a1 : Str) (text : Option Str) : Mail :=
  if s.getCh a1 = none then [(x, str "403 " ++ a1 ++ str " :No such channel")]
  else
    match s.chs[a1]? with
    | some ch =>
      if x ∉ ch.clis then [(x, str "442 " ++ a1 ++ str " :You're not on that channel")]
      else if x ∉ ch.adms ∧ ch.optT = true then
        [(x, str "482 " ++ a1 ++ str " :You're not channel operator")]
      else
        match text with
        | none =>
          if ch.topic = [] then [(x, noTopicLine c a1)]
          else [(x, str "332 :" ++ c.nick ++ str " " ++ a1 ++ str " :" ++ ch.topic)]
        | some a2 => setTopicMail x c a1 a2 ch
    | none => []

def topicDone (s : Server) (x : Ptr) (a1 : Str) (text : Option Str) : Server :=
  match text with
  | some a2 =>
    if (s.chs[a1]?).any (fun ch => MayTopic x ch) then
      s.updCh a1 fun ch => { ch with topic := newTopic a2 }
    else s
  | none => s

theorem execTopic_run (hI : Inv s) (hc : s.cliAt x = some c) (hreg : c.registered = true)
    (ha1 : ar[1]? = some a1) (hsafe : KeySpelled s a1) :
    s.execTopic x ar = .ok ((topicDone s x a1 ar[2]?).sendAll (topicMail s x c a1 ar[2]?)) := by
  have hlt := (List.getElem?_eq_some_iff.mp ha1).1
  -- the channel does not change
  have hreply : ∀ m, (s.chs[a1]?).any (fun ch => MayTopic x ch) = false →
      s.prepareResp x m = .ok ((topicDone s x a1 ar[2]?).sendAll [(x, m)]) := fun m hno => by
    have hsame : topicDone s x a1 ar[2]? = s := by
      unfold topicDone
      split
      · rw [if_neg (by simp [hno])]
      · rfl
    rw [hsame]
    exact reply_ok hI hc m
  unfold execTopic
  rw [deref_of_cliAt hI hc]
  show (if c.registered = false then _ else if ar.length < 2 then _ else arg ar 1 >>= _) = _
  rw [if_neg (by simp [hreg]), if_neg (by omega), arg_ok ha1]
  show (if s.getCh a1 = none then _ else s.getCliOnCh c.nick a1 >>= _) = _
  unfold topicMail
  by_cases hget : s.getCh a1 = none
  · rw [if_pos hget, if_pos hget]
    refine hreply _ ?_
    cases hch : s.chs[a1]? with
    | none => rfl
    | some ch =>
      rw [getCh_self hI (mem_chs.mpr ⟨ch, hch⟩)] at hget
      cases hget
  have hmem := hsafe hget
  obtain ⟨ch, hch⟩ := mem_chs.mp hmem
  have hself : s.getCh a1 = some a1 := getCh_self hI hmem
  rw [if_neg hget, if_neg hget, getCliOnCh_self hI hch hc rfl, hch]
  rw [hch] at hreply
  by_cases hx : x ∈ ch.clis
  swap
  · rw [if_neg hx]
    show s.prepareResp x _ = .ok ((topicDone s x a1 ar[2]?).sendAll (if x ∉ ch.clis then _ else _))
    rw [if_pos hx]
    exact hreply _ (by simp [MayTopic, hx])
  rw [if_pos hx]
  show (if x = NULL then _ else s.getAdmOnCh c.nick a1 >>= _) =
    .ok ((topicDone s x a1 ar[2]?).sendAll (if x ∉ ch.clis then _ else _))
  rw [if_neg (ne_null_of_cliAt hI hc), if_neg (not_not.mpr hx), getAdmOnCh_self hI hch hc rfl, hself]
  show (s.derefCh (some a1) >>= _) = _
  rw [derefCh_some hch]
  show (if (if x ∈ ch.adms then x else NULL) = NULL ∧ ch.optT = true then _ else _) = _
  have hadm : (if x ∈ ch.adms then x else NULL) = NULL ↔ x ∉ ch.adms := by
    by_cases hop : x ∈ ch.adms
    · rw [if_pos hop]
      exact iff_of_false (ne_null_of_cliAt hI hc) (not_not.mpr hop)
    · rw [if_neg hop]
      exact iff_of_true rfl hop
  simp only [hadm]
  by_cases hop : x ∉ ch.adms ∧ ch.optT = true
  · rw [if_pos hop, if_pos hop]
    refine hreply _ ?_
    simp [MayTopic, hop.1, hop.2]
  rw [if_neg hop, if_neg hop]
  have hmay : MayTopic x ch := by
    refine ⟨hx, ?_⟩
    by_cases hadm : x ∈ ch.adms
    · exact .inl hadm
    · refine .inr ?_
      cases ht : ch.optT with
      | false => rfl
      | true => exact absurd ⟨hadm, ht⟩ hop
  by_cases h2 : ar.length = 2
  · rw [if_pos h2, List.getElem?_eq_none (by omega)]
    show (if ch.topic = [] then _ else _) = Except.ok (s.sendAll (if ch.topic = [] then _ else _))
    by_cases ht : ch.topic = []
    · rw [if_pos ht, if_pos ht]
      exact reply_ok hI hc _
    · rw [if_neg ht, if_neg ht]
      exact reply_ok hI hc _
  · obtain ⟨a2, ha2⟩ := exists_arg ar 2 (by omega)
    -- the topic is written, then the lines are prepared
    have hwrite : ∀ t, Inv (s.updCh a1 fun ch => { ch with topic := t }) ∧
        (s.updCh a1 fun ch => { ch with topic := t }).chs[a1]? = some { ch with topic := t } ∧
        (s.updCh a1 fun ch => { ch with topic := t }).getCh a1 = some a1 := fun t => by
      refine ⟨?_, ?_, by rw [getCh_updCh, hself]⟩
      · rw [updCh_const hch]
        exact inv_updCh hI hch (fun _ hp => .inl hp) (hI.adm a1 ch hch)
      · rw [getElem?_chs_updCh, if_pos rfl, hch]
        rfl
    have hdone : topicDone s x a1 (some a2) = s.updCh a1 fun ch => { ch with topic := newTopic a2 } := by
      refine if_pos ?_
      rw [hch]
      simp [hmay]
    rw [if_neg h2, arg_ok ha2, ha2, hdone, newTopic]
    show (if a2 = str ":" ∨ a2 = [] then s.setCh a1 (fun ch => { ch with topic := [] }) >>= _ else
      s.setCh a1 (fun ch => { ch with topic := a2 }) >>= _) =
        Except.ok (Server.sendAll _ (setTopicMail x c a1 a2 ch))
    unfold setTopicMail
    by_cases he : a2 = str ":" ∨ a2 = []
    · obtain ⟨hIu, hchu, hgetu⟩ := hwrite []
      rw [if_pos he, if_pos he, if_pos he, setCh_ok hself]
      show ((s.updCh a1 _).prepareRespAuthorIncluding ((s.updCh a1 _).getCh a1) _ >>= _) = _
      rw [hgetu, prepareRespAuthorIncluding_ok hIu hchu]
      exact reply_sendAll hIu hc _
    · obtain ⟨hIu, hchu, hgetu⟩ := hwrite a2
      rw [if_neg he, if_neg he, if_neg he, setCh_ok hself]
      show ((s.updCh a1 _).prepareResp x _ >>= _) = _
      rw [reply_ok hIu hc]
      show ((s.updCh a1 _).sendAll _).prepareRespAuthorIncluding (((s.updCh a1 _).sendAll _).getCh a1) _ = _
      rw [getCh_sendAll, hgetu, bcast_sendAll hIu hchu]
      rfl

end FtIrc
