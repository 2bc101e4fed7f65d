import FtIrc.ChannelMessages

/-!
# NOTICE and PRIVMSG

`execNotice` is a copy of `execPrivmsg` without some of its tests.  `Agree` is that the two lines with the
same targets and text give every other client the same number of lines, and that `NOTICE` is answered with
no error; `agree_iff` is when they do.
-/

namespace FtIrc

open Std Outcome Server Delimited

variable {s s' : Server} {x y : Ptr} {ar args : List Str} {c d : Cli} {k a1 a2 t targets text line : Str} {ch : Ch}
  {m : Str} {cfg : Config} {pass : Str} {lfd : Nat} {tos : List Str}

/-- The lines `ms` have been prepared for a client. -/
def Gains (d d' : Cli) (ms : List Str) : Prop :=
  d'.bufToSend = d.bufToSend ++ frames ms ∧ d'.hist.prepared = d.hist.prepared ++ ms

/-- The two commands tell the same others, equally often, and `NOTICE` is answered with no error. -/
def Agree (s : Server) (x : Ptr) (c : Cli) (targets text : Str) : Prop :=
  ∃ sp sn, s.execLine x (messageCmd "PRIVMSG" targets text) = .ok sp ∧
    s.execLine x (messageCmd "NOTICE" targets text) = .ok sn ∧
    (∀ y d, y ≠ x → s.cliAt y = some d → ∃ dp dn ps ns, sp.cliAt y = some dp ∧ sn.cliAt y = some dn ∧
      Gains d dp ps ∧ Gains d dn ns ∧ ps.length = ns.length) ∧
    ∃ dn ns, sn.cliAt x = some dn ∧ Gains c dn ns ∧ ∀ m ∈ ns, ∃ a1 a2, m = noticeLine c a1 a2

/-- The targets for which they do. -/
structure Matched (s : Server) (x : Ptr) (tos : List Str) : Prop where
  /-- a list that `PRIVMSG` refuses reaches nobody -/
  refused : tooManyTargets tos = true → ∀ t ∈ tos, ∀ y, y ≠ x → ¬ NoticeReaches s x t y
  /-- a channel that somebody else is on is spelled exactly, in lower case, by a member -/
  spelled : tooManyTargets tos = false → ∀ t ∈ tos, t.head? = some HASH → ∀ k, s.getCh t = some k →
    (∃ y, y ≠ x ∧ On s y k) → t = k ∧ toLower t = t ∧ On s x t
  /-- and `PRIVMSG` does not dereference a null pointer -/
  safe : tooManyTargets tos = false → PrivmsgSafe s tos

/-! ## The lines for one client -/

theorem inbox_noticeMail (s : Server) (x y : Ptr) (c : Cli) (a1 a2 t : Str) :
    inbox y (noticeMail s x c a1 a2 t) = [noticeLine c a1 a2] ∧ NoticeReaches s x t y ∨
    inbox y (noticeMail s x c a1 a2 t) = [] ∧ ¬ NoticeReaches s x t y := by
  unfold noticeMail NoticeReaches
  by_cases hH : t.head? = some HASH
  · rw [if_pos hH, if_pos hH]
    cases hget : s.getCh t with
    | none => exact .inr ⟨rfl, fun ⟨k, hk, _⟩ => by cases hk⟩
    | some k =>
      obtain ⟨ch, hch⟩ := mem_chs.mp (getCh_some hget).1
      rw [Option.bind_some, hch]
      show inbox y (bcastOthers ch x _) = _ ∧ _ ∨ inbox y (bcastOthers ch x _) = _ ∧ _
      rw [inbox_bcastOthers]
      by_cases hy : y ≠ x ∧ y ∈ ch.clis
      · exact .inl ⟨if_pos hy, k, rfl, ⟨ch, hch, hy.2⟩, hy.1⟩
      · refine .inr ⟨if_neg hy, ?_⟩
        rintro ⟨k', hk', hon, hyx⟩
        cases hk'
        exact hy ⟨hyx, (on_iff hch).mp hon⟩
  · rw [if_neg hH, if_neg hH]
    by_cases hto : s.getCli t = NULL
    · rw [if_pos hto]
      exact .inr ⟨rfl, fun ⟨h, hne⟩ => hne (h ▸ hto)⟩
    · rw [if_neg hto, inbox_cons]
      by_cases hy : s.getCli t = y
      · exact .inl ⟨if_pos hy, hy, hy ▸ hto⟩
      · exact .inr ⟨if_neg hy, fun h => hy h.1⟩

theorem inbox_privmsgMail (s : Server) (c : Cli) (a1 a2 t : Str) (hy : y ≠ x) :
    inbox y (privmsgMail s x c a1 a2 t) = [privmsgLine c a1 a2] ∧ Reaches s x t y ∨
    inbox y (privmsgMail s x c a1 a2 t) = [] ∧ ¬ Reaches s x t y := by
  have hreply : ∀ m, inbox y [(x, m)] = [] := fun m => by rw [inbox_cons, if_neg (Ne.symm hy), inbox_nil]
  unfold privmsgMail Reaches
  by_cases hH : t.head? = some HASH
  · rw [if_pos hH, if_pos hH]
    by_cases hlow : toLower t ∈ s.chs
    · rw [if_neg (not_not.mpr hlow)]
      cases hch : s.chs[t]? with
      | none =>
        refine .inr ⟨rfl, ?_⟩
        rintro ⟨-, ⟨ch, hch', -⟩, -⟩
        rw [hch] at hch'
        cases hch'
      | some ch =>
        simp only [on_iff hch]
        by_cases hx : x ∈ ch.clis
        · rw [if_pos hx, inbox_bcastOthers]
          by_cases hin : y ∈ ch.clis
          · exact .inl ⟨if_pos ⟨hy, hin⟩, hlow, hx, hin, hy⟩
          · exact .inr ⟨if_neg fun h => hin h.2, fun h => hin h.2.2.1⟩
        · rw [if_neg hx]
          exact .inr ⟨hreply _, fun h => hx h.2.1⟩
    · rw [if_pos hlow]
      exact .inr ⟨hreply _, fun h => hlow h.1⟩
  · rw [if_neg hH, if_neg hH]
    by_cases hto : s.getCli t = NULL
    · rw [if_pos hto]
      exact .inr ⟨hreply _, fun ⟨h, hne⟩ => hne (h ▸ hto)⟩
    · rw [if_neg hto, inbox_cons]
      by_cases he : s.getCli t = y
      · exact .inl ⟨if_pos he, he, he ▸ hto⟩
      · exact .inr ⟨if_neg he, fun h => he h.1⟩

theorem inbox_flatMap (f : Str → Mail) : inbox y (tos.flatMap f) = tos.flatMap fun t => inbox y (f t) := by
  induction tos with
  | nil => rfl
  | cons t tos ih => rw [List.flatMap_cons, inbox_append, ih, List.flatMap_cons]

/-- `PRIVMSG` reaches no more than `NOTICE` does. -/
theorem noticeReaches_of_reaches (hI : Inv s) (h : Reaches s x t y) : NoticeReaches s x t y := by
  unfold Reaches at h
  unfold NoticeReaches
  split at h
  · rename_i hH
    rw [if_pos hH]
    exact ⟨t, getCh_self hI (mem_of_on h.2.2.1), h.2.2.1, h.2.2.2⟩
  · rename_i hH
    rw [if_neg hH]
    exact h

/-- How often the targets reach a client. -/
theorem length_inbox_le (hI : Inv s) (hy : y ≠ x) : ∀ tos : List Str,
    (inbox y (tos.flatMap (privmsgMail s x c a1 a2))).length ≤ (inbox y (tos.flatMap (noticeMail s x c a1 a2))).length ∧
      ((inbox y (tos.flatMap (privmsgMail s x c a1 a2))).length =
          (inbox y (tos.flatMap (noticeMail s x c a1 a2))).length ↔
        ∀ t ∈ tos, NoticeReaches s x t y → Reaches s x t y)
  | [] => ⟨Nat.le_refl _, by simp⟩
  | t :: tos => by
    obtain ⟨hle, heq⟩ := length_inbox_le hI hy tos
    rw [List.flatMap_cons, List.flatMap_cons, inbox_append, inbox_append, List.length_append, List.length_append,
      List.forall_mem_cons, ← heq]
    rcases inbox_privmsgMail s c a1 a2 t hy with ⟨hp, hpr⟩ | ⟨hp, hpr⟩
    · rcases inbox_noticeMail s x y c a1 a2 t with ⟨hn, hnr⟩ | ⟨hn, hnr⟩
      · rw [hp, hn, List.length_singleton, List.length_singleton]
        refine ⟨by omega, fun h => ⟨fun _ => hpr, by omega⟩, fun h => by omega⟩
      · exact absurd (noticeReaches_of_reaches hI hpr) hnr
    · rcases inbox_noticeMail s x y c a1 a2 t with ⟨hn, hnr⟩ | ⟨hn, hnr⟩
      · rw [hp, hn, List.length_singleton, List.length_nil]
        exact ⟨by omega, fun h => by omega, fun h => absurd (h.1 hnr) hpr⟩
      · rw [hp, hn, List.length_nil]
        exact ⟨by omega, fun h => ⟨fun h' => absurd h' hnr, by omega⟩, fun h => by omega⟩

/-- A list of notices that tells a client nothing. -/
theorem inbox_notices_nil_iff : inbox y (tos.flatMap (noticeMail s x c a1 a2)) = [] ↔
    ∀ t ∈ tos, ¬ NoticeReaches s x t y := by
  rw [inbox_flatMap, List.flatMap_eq_nil_iff]
  refine forall₂_congr fun t _ => ?_
  rcases inbox_noticeMail s x y c a1 a2 t with ⟨hn, hnr⟩ | ⟨hn, hnr⟩
  · rw [hn]
    exact iff_of_false (by simp) (not_not.mpr hnr)
  · exact iff_of_true hn hnr

/-! ## The two lines -/

/-- The two lines have the same arguments behind the name of the command. -/
theorem args_both (targets text : Str) : ∃ args,
    splitCmdToArgs (messageCmd "PRIVMSG" targets text) = str "PRIVMSG" :: args ∧
      splitCmdToArgs (messageCmd "NOTICE" targets text) = str "NOTICE" :: args := by
  have hline : ∀ cmd, messageCmd cmd targets text = str cmd ++ SPACE :: (targets ++ SPACE :: COLON :: text) := by
    intro cmd
    unfold messageCmd
    rw [List.append_assoc, List.append_assoc, List.append_assoc]
    rfl
  refine ⟨(rawArgs (targets ++ SPACE :: COLON :: text)).take 16, ?_, ?_⟩
  · rw [splitCmdToArgs_eq, hline, rawArgs_word_space (by decide) (by decide) (by decide)]
    rfl
  · rw [splitCmdToArgs_eq, hline, rawArgs_word_space (by decide) (by decide) (by decide)]
    rfl

/-- What a line has prepared is what its command comes to. -/
theorem gains_execLine (hI : Inv s) (hc : s.cliAt x = some c) (h : s.execLine x line = .ok s')
    (hd : s.cliAt y = some d) : ∃ d', s'.cliAt y = some d' ∧
      Gains d d' (inbox y (cmdRun s x c (splitCmdToArgs line)).2) := by
  obtain ⟨d', hd', hbuf, hprep⟩ := execLine_inbox hI hc h hd
  exact ⟨d', hd', hbuf, hprep⟩

theorem Gains.eq {d' : Cli} {ms ms' : List Str} (h : Gains d d' ms) (h' : Gains d d' ms') : ms = ms' :=
  List.append_cancel_left (h.2.symm.trans h'.2)

/-- The agreement, in terms of what the commands prepare. -/
theorem agree_iff_inbox (hI : Inv s) (hc : s.cliAt x = some c)
    (hp : splitCmdToArgs (messageCmd "PRIVMSG" targets text) = str "PRIVMSG" :: args)
    (hn : splitCmdToArgs (messageCmd "NOTICE" targets text) = str "NOTICE" :: args) :
    Agree s x c targets text ↔ CmdSafe s x (str "PRIVMSG" :: args) ∧
      (∀ y d, y ≠ x → s.cliAt y = some d → (inbox y (cmdRun s x c (str "PRIVMSG" :: args)).2).length =
        (inbox y (cmdRun s x c (str "NOTICE" :: args)).2).length) ∧
      ∀ m ∈ inbox x (cmdRun s x c (str "NOTICE" :: args)).2, ∃ a1 a2, m = noticeLine c a1 a2 := by
  constructor
  · rintro ⟨sp, sn, hsp, hsn, hall, dn, ns, hdn, hns, hself⟩
    refine ⟨hp ▸ (execLine_ok_iff hI hc).mp ⟨sp, hsp⟩, fun y d hy hd => ?_, ?_⟩
    · obtain ⟨ep, en, ps, ns, hep, hen, hps, hns, hlen⟩ := hall y d hy hd
      obtain ⟨ep', hep', hps'⟩ := gains_execLine hI hc hsp hd
      obtain ⟨en', hen', hns'⟩ := gains_execLine hI hc hsn hd
      rw [hep] at hep'
      rw [hen] at hen'
      cases hep'
      cases hen'
      rw [← hp, ← hn, ← hps.eq hps', ← hns.eq hns', hlen]
    · obtain ⟨en', hen', hns'⟩ := gains_execLine hI hc hsn hc
      rw [hdn] at hen'
      cases hen'
      rw [← hn, ← hns.eq hns']
      exact hself
  · rintro ⟨hsafe, hall, hself⟩
    obtain ⟨sp, hsp⟩ := (execLine_ok_iff hI hc).mpr (hp ▸ hsafe)
    obtain ⟨sn, hsn⟩ : ∃ sn, s.execLine x (messageCmd "NOTICE" targets text) = .ok sn :=
      (execLine_ok_iff hI hc).mpr (hn ▸ cmdSafe_of_other (l := "NOTICE") rfl (by decide))
    refine ⟨sp, sn, hsp, hsn, fun y d hy hd => ?_, ?_⟩
    · obtain ⟨ep, hep, hps⟩ := gains_execLine hI hc hsp hd
      obtain ⟨en, hen, hns⟩ := gains_execLine hI hc hsn hd
      rw [hp] at hps
      rw [hn] at hns
      exact ⟨ep, en, _, _, hep, hen, hps, hns, hall y d hy hd⟩
    · obtain ⟨en, hen, hns⟩ := gains_execLine hI hc hsn hc
      rw [hn] at hns
      exact ⟨en, _, hen, hns, hself⟩

/-- A channel target that reaches nobody whom `PRIVMSG` does not reach. -/
theorem reaches_all_iff (hI : Inv s) (hH : t.head? = some HASH) (hsafe : toLower t ∈ s.chs → t ∈ s.chs) :
    (∀ y, y ≠ x → NoticeReaches s x t y → Reaches s x t y) ↔
      ∀ k, s.getCh t = some k → (∃ y, y ≠ x ∧ On s y k) → t = k ∧ toLower t = t ∧ On s x t := by
  unfold NoticeReaches Reaches
  simp only [if_pos hH]
  constructor
  · rintro h k hk ⟨y, hy, hon⟩
    obtain ⟨hlow, hx, -, -⟩ := h y hy ⟨k, hk, hon, hy⟩
    have ht := hsafe hlow
    have hkt : k = t := hI.ch_inj k (getCh_some hk).1 t ht (getCh_some hk).2
    exact ⟨hkt.symm, hI.ch_inj _ hlow _ ht (toLower_idem t), hx⟩
  · rintro h y hy ⟨k, hk, hon, -⟩
    obtain ⟨rfl, hlow, hx⟩ := h k hk ⟨y, hy, hon⟩
    refine ⟨?_, hx, hon, hy⟩
    rw [hlow]
    exact (getCh_some hk).1

theorem noticeReaches_live (hI : Inv s) (h : NoticeReaches s x t y) : ∃ d, s.cliAt y = some d := by
  unfold NoticeReaches at h
  split at h
  · obtain ⟨k, -, ⟨ch, hch, hin⟩, -⟩ := h
    obtain ⟨d, hd, -⟩ := hI.member k ch hch y hin
    exact ⟨d, hd⟩
  · obtain ⟨rfl, hne⟩ := h
    obtain ⟨d, hd, -⟩ := getCli_ne_null hI hne
    exact ⟨d, hd⟩

theorem mem_inbox_notices {tos : List Str} (hm : m ∈ inbox y (tos.flatMap (noticeMail s x c a1 a2))) :
    m = noticeLine c a1 a2 := by
  rw [inbox_flatMap, List.mem_flatMap] at hm
  obtain ⟨t, -, hm⟩ := hm
  rcases inbox_noticeMail s x y c a1 a2 t with ⟨hn, -⟩ | ⟨hn, -⟩
  · rw [hn] at hm
    exact List.mem_singleton.mp hm
  · rw [hn] at hm
    cases hm

/-- Two lists of lines that all clients but `x` get equally many of, for each target of a list. -/
theorem lengths_iff (hI : Inv s) (hsafe : PrivmsgSafe s tos) :
    (∀ y d, y ≠ x → s.cliAt y = some d → (inbox y (tos.flatMap (privmsgMail s x c a1 a2))).length =
        (inbox y (tos.flatMap (noticeMail s x c a1 a2))).length) ↔
      ∀ t ∈ tos, t.head? = some HASH → ∀ k, s.getCh t = some k → (∃ y, y ≠ x ∧ On s y k) →
        t = k ∧ toLower t = t ∧ On s x t := by
  constructor
  · intro h t ht hH
    apply (reaches_all_iff hI hH (hsafe t ht hH)).mp
    intro y hy hr
    obtain ⟨d, hd⟩ := noticeReaches_live hI hr
    exact (length_inbox_le hI hy tos).2.mp (h y d hy hd) t ht hr
  · intro h y d hy _
    apply (length_inbox_le hI hy tos).2.mpr
    intro t ht hr
    by_cases hH : t.head? = some HASH
    · exact (reaches_all_iff hI hH (hsafe t ht hH)).mpr (h t ht hH) y hy hr
    · -- a nick is looked up in the same way
      unfold NoticeReaches at hr
      unfold Reaches
      rw [if_neg hH] at hr ⊢
      exact hr

/-- `PRIVMSG` is refused, with one reply. -/
theorem privmsgRun_refused (hreg : c.registered = true)
    (h : ar.length = 1 ∨ ar.length = 2 ∨ tooManyTargets (splitArgToSubargs (argD ar 1)) = true) :
    ∃ m, (privmsgRun s x c ar).2 = [(x, m)] := by
  unfold privmsgRun registeredRun
  rw [if_neg (by simp [hreg])]
  by_cases h1 : ar.length = 1
  · exact ⟨_, by rw [if_pos h1]⟩
  rw [if_neg h1]
  by_cases h2 : ar.length = 2
  · exact ⟨_, by rw [if_pos h2]⟩
  rw [if_neg h2, if_pos ((h.resolve_left h1).resolve_left h2)]
  exact ⟨_, rfl⟩

theorem privmsgRun_list (hreg : c.registered = true) (hlen : 3 ≤ ar.length)
    (hfew : tooManyTargets (splitArgToSubargs (argD ar 1)) = false) :
    (privmsgRun s x c ar).2 = privmsgMails s x c (argD ar 1) (argD ar 2) := by
  unfold privmsgRun registeredRun
  rw [if_neg (by simp [hreg]), if_neg (by omega), if_neg (by omega), if_neg (by simp [hfew])]

theorem noticeRun_list (hreg : c.registered = true) (hlen : 3 ≤ ar.length) :
    (noticeRun s x c ar).2 = noticeMails s x c (argD ar 1) (argD ar 2) := by
  unfold noticeRun
  rw [if_neg]
  rintro (h | h)
  · rw [hreg] at h
    cases h
  · omega

theorem noticeRun_short (hlen : ar.length < 3) : (noticeRun s x c ar).2 = [] := by
  unfold noticeRun
  rw [if_pos (.inr hlen)]

/-- **NOTICE and PRIVMSG**: the two lines agree exactly if they have no target or no text, or their targets
are `Matched`. -/
theorem agree_iff (hr : Reachable pass lfd cfg) (hc : cfg.srv.cliAt x = some c) (hreg : c.registered = true) :
    Agree cfg.srv x c targets text ↔ (3 ≤ (splitCmdToArgs (messageCmd "NOTICE" targets text)).length →
      Matched cfg.srv x (splitArgToSubargs (argD (splitCmdToArgs (messageCmd "NOTICE" targets text)) 1))) := by
  have hI := hr.good.inv
  obtain ⟨args, hp, hn⟩ := args_both targets text
  have hcp : CmdIs (str "PRIVMSG" :: args) "PRIVMSG" := rfl
  have hcn : CmdIs (str "NOTICE" :: args) "NOTICE" := rfl
  have hsame : ∀ i, argD (str "PRIVMSG" :: args) (i + 1) = argD (str "NOTICE" :: args) (i + 1) := fun _ => rfl
  have hnone : ∀ y m, y ≠ x → (inbox y [(x, m)]).length = 0 := fun y m hy => by
    rw [inbox_cons, if_neg (Ne.symm hy), inbox_nil, List.length_nil]
  rw [agree_iff_inbox hI hc hp hn, hn, cmdSafe_privmsg hcp, cmdRun_privmsg hcp, cmdRun_notice hcn]
  by_cases hlen : 3 ≤ (str "NOTICE" :: args).length
  · have hlen' : 3 ≤ (str "PRIVMSG" :: args).length := hlen
    have hself : ∀ m ∈ inbox x (noticeRun cfg.srv x c (str "NOTICE" :: args)).2,
        ∃ a1 a2, m = noticeLine c a1 a2 := by
      intro m hm
      rw [noticeRun_list hreg hlen] at hm
      exact ⟨_, _, mem_inbox_notices hm⟩
    rw [imp_iff_right hlen, and_iff_left hself, noticeRun_list hreg hlen]
    obtain ⟨a1, ha1⟩ := exists_arg (str "PRIVMSG" :: args) 1 (by omega)
    have hok : PrivmsgOk cfg.srv x (str "PRIVMSG" :: args) ↔
        (tooManyTargets (splitArgToSubargs a1) = false → PrivmsgSafe cfg.srv (splitArgToSubargs a1)) := by
      unfold PrivmsgOk
      rw [ha1]
      simp only [Option.mem_def, Option.some.injEq, forall_eq']
      exact ⟨fun h => h ⟨c, hc, hreg⟩ hlen', fun h _ _ => h⟩
    have harg : argD (str "NOTICE" :: args) 1 = a1 := argD_of_getElem? ha1
    have harg' : argD (str "PRIVMSG" :: args) 1 = a1 := argD_of_getElem? ha1
    rw [hok, harg]
    unfold noticeMails
    cases hmany : tooManyTargets (splitArgToSubargs a1) with
    | true =>
      obtain ⟨m, hm⟩ := privmsgRun_refused (s := cfg.srv) (x := x) hreg
        (.inr (.inr (show tooManyTargets (splitArgToSubargs (argD (str "PRIVMSG" :: args) 1)) = true by
          rw [harg', hmany])))
      rw [hm]
      constructor
      · rintro ⟨-, hall⟩
        refine ⟨fun _ t ht y hy hr => ?_, fun h => ?_, fun h => ?_⟩
        · obtain ⟨d, hd⟩ := noticeReaches_live hI hr
          have hzero := hall y d hy hd
          rw [hnone y m hy] at hzero
          exact inbox_notices_nil_iff.mp (List.length_eq_zero_iff.mp hzero.symm) t ht hr
        · rw [hmany] at h
          cases h
        · rw [hmany] at h
          cases h
      · intro h
        refine ⟨nofun, fun y d hy _ => ?_⟩
        rw [hnone y m hy, inbox_notices_nil_iff.mpr fun t ht => h.refused hmany t ht y hy, List.length_nil]
    | false =>
      rw [privmsgRun_list hreg hlen' (by rw [harg', hmany]), harg', hsame 1]
      unfold privmsgMails
      constructor
      · rintro ⟨hsafe, hall⟩
        have hsafe := hsafe rfl
        refine ⟨fun h => ?_, fun _ => (lengths_iff hI hsafe).mp hall, fun _ => hsafe⟩
        rw [hmany] at h
        cases h
      · intro h
        exact ⟨fun _ => h.safe hmany, (lengths_iff hI (h.safe hmany)).mpr (h.spelled hmany)⟩
  · -- no target, or no text: nobody is told
    rw [noticeRun_short (by omega)]
    have hcases : (str "PRIVMSG" :: args).length = 1 ∨ (str "PRIVMSG" :: args).length = 2 := by
      rw [List.length_cons] at hlen ⊢
      omega
    obtain ⟨m, hm⟩ := privmsgRun_refused (s := cfg.srv) (x := x) hreg
      (hcases.imp_right fun h => (.inl h : _ ∨ tooManyTargets (splitArgToSubargs (argD (str "PRIVMSG" :: args) 1)) = true))
    rw [hm]
    refine iff_of_true ⟨fun _ a1 _ h => ?_, fun y d hy _ => ?_, fun m hm => by cases hm⟩ fun h => absurd h hlen
    · exact absurd h hlen
    · rw [hnone y m hy, inbox_nil, List.length_nil]

/-- A member writes to a channel that is spelled in lower case. -/
theorem agree_member : ∃ cfg c, Reachable (str "2") 3 cfg ∧ cfg.srv.cliAt alice.addr = some c ∧
    On cfg.srv bob.addr (str "#c") ∧ Agree cfg.srv alice.addr c (str "#c") (str "hi") := by
  obtain ⟨cfg, hrun, hP⟩ := exists_run (str "2") 3 (connect 0 alice ++ connect 1 bob ++
    say 1 0 4 (register "bo" ++ str "JOIN #c\r\n") ++ say 0 1 4 (register "al" ++ str "JOIN #c\r\n"))
    (fun cfg => decide (On cfg.srv bob.addr (str "#c")) && decide (On cfg.srv alice.addr (str "#c")) &&
      decide (cfg.srv.getCh (str "#c") = some (str "#c")) &&
      (cfg.srv.cliAt alice.addr).any fun c => c.registered) (by decide +kernel)
  simp only [Bool.and_eq_true, Option.any_eq_true, decide_eq_true_eq] at hP
  obtain ⟨⟨⟨hbob, halice⟩, hget⟩, c, hc, hreg⟩ := hP
  refine ⟨cfg, c, ⟨_, hrun⟩, hc, hbob, (agree_iff ⟨_, hrun⟩ hc hreg).mpr fun _ => ?_⟩
  have hone : splitArgToSubargs (argD (splitCmdToArgs (messageCmd "NOTICE" (str "#c") (str "hi"))) 1) = [str "#c"] := by
    decide
  rw [hone]
  refine ⟨fun h => absurd h (by decide), fun _ t ht _ k hk _ => ?_, fun _ t ht _ _ => ?_⟩
  · rw [List.mem_singleton.mp ht] at hk ⊢
    rw [hget] at hk
    cases hk
    exact ⟨rfl, by decide, halice⟩
  · rw [List.mem_singleton.mp ht]
    exact mem_of_on halice

/-- Who is not on the channel can send it a `NOTICE`. -/
theorem notice_outsider : ¬ ∀ (pass : Str) (lfd : Nat) (cfg : Config), Reachable pass lfd cfg →
    ∀ (x : Ptr) (c : Cli) (targets text : Str), cfg.srv.cliAt x = some c → c.registered = true →
      Agree cfg.srv x c targets text := by
  intro hall
  obtain ⟨cfg, hrun, hP⟩ := exists_run (str "2") 3 (connect 0 alice ++ connect 1 bob ++
    say 1 0 4 (register "bo" ++ str "JOIN #c\r\n") ++ say 0 1 3 (register "al"))
    (fun cfg => (cfg.srv.cliAt alice.addr).any fun c => c.registered && (cfg.srv.cliAt bob.addr).any fun d =>
      ((cfg.srv.execLine alice.addr (messageCmd "PRIVMSG" (str "#c") (str "hi"))).toOption.any fun s' =>
        (s'.cliAt bob.addr).any fun d' => d'.hist.prepared.length = d.hist.prepared.length) &&
      ((cfg.srv.execLine alice.addr (messageCmd "NOTICE" (str "#c") (str "hi"))).toOption.any fun s' =>
        (s'.cliAt bob.addr).any fun d' => d'.hist.prepared.length = d.hist.prepared.length + 1))
    (by decide +kernel)
  simp only [Bool.and_eq_true, Option.any_eq_true, decide_eq_true_eq] at hP
  obtain ⟨c, hc, hreg, d, hd, ⟨sp, hsp, dp, hdp, hlenp⟩, sn, hsn, dn, hdn, hlenn⟩ := hP
  obtain ⟨sp', sn', hsp', hsn', hothers, -⟩ := hall _ _ cfg ⟨_, hrun⟩ _ c (str "#c") (str "hi") hc hreg
  rw [eq_ok_of_toOption hsp] at hsp'
  rw [eq_ok_of_toOption hsn] at hsn'
  cases hsp'
  cases hsn'
  obtain ⟨ep, en, ps, ns, hep, hen, ⟨-, hps⟩, ⟨-, hns⟩, heq⟩ := hothers bob.addr d (by decide) hd
  rw [hdp] at hep
  rw [hdn] at hen
  cases hep
  cases hen
  rw [hps, List.length_append] at hlenp
  rw [hns, List.length_append] at hlenn
  omega

end FtIrc
