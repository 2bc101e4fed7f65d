import FtIrc.Meaning.Line

/-!
# What others are told

`Relay s x c ar y` lists the lines that a command of `x` prepares for another client `y`: everything
else it prepares is for `x` itself (`relay_iff`).  The lists that `JOIN` and `MODE` go through are read
in the state the command began in.
-/

namespace FtIrc

open Std Outcome Server

variable {s u : Server} {x y : Ptr} {ar : List Str} {c me d : Cli} {k m n name a1 a2 text pass line : Str}
  {ch : Ch} {joined names passes : List Str} {l : String}

/-! ## The channels JOIN adds -/

/-- The loop of `JOIN` has joined the channels `joined` since `s`, and kept what it reads. -/
structure Track (s u : Server) (x : Ptr) (c : Cli) (joined : List Str) : Prop where
  inv : Inv u
  joined : Joined s u x c joined
  author : ∃ me, u.cliAt x = some me ∧ me.registered = true
  nicks : ∀ q, nickAt u q = nickAt s q
  keys : ∀ k ∈ s.chs, k ∈ u.chs

theorem Track.refl (hI : Inv s) (hc : s.cliAt x = some c) (hreg : c.registered = true) :
    Track s s x c [] :=
  ⟨hI, .refl hc, ⟨c, hc, hreg⟩, fun _ => rfl, fun _ hk => hk⟩

/-- One name that is valid and not a channel of the author. -/
theorem Track.one (h : Track s u x c joined) (hname : ChName name) (hoff : ¬ On u x name)
    (hspell : ∀ k ∈ s.chs.keys ++ joined, toLower k = toLower name → k = name) (pass : Str) :
    ∃ ch, ch = (s.chs[name]?).getD (Ch.new x) ∧
      if Admitted s c name pass then
        (joinOne u x c name pass).2 = joinedMail s x c name (ch.enter x) ∧
          Track s (joinOne u x c name pass).1 x c (name :: joined)
      else (∃ m, (joinOne u x c name pass).2 = [(x, m)]) ∧ (joinOne u x c name pass).1 = u := by
  obtain ⟨me, hme, hreg⟩ := h.author
  have hfresh : ¬ On s x name ∧ name ∉ joined := by
    rw [h.joined.on_iff, not_or] at hoff
    exact hoff
  have hkey : u.getCh name = none ∨ name ∈ u.chs := by
    cases hg : u.getCh name with
    | none => exact .inl rfl
    | some k =>
      obtain ⟨hk, hlow⟩ := getCh_some hg
      have hmem : k ∈ s.chs.keys ++ joined := by
        rw [List.mem_append, ExtTreeMap.mem_keys]
        exact (h.joined.mem_iff h.keys).mp hk
      exact .inr (hspell k hmem hlow ▸ hk)
  obtain ⟨hIv, ch, hch, hold, hother⟩ := openCh_spec h.inv ⟨me, hme, hreg⟩ hname hkey
  have hsame : u.chs[name]? = s.chs[name]? := h.joined.other name hfresh.2
  have hcv : (openCh u x name).cliAt x = some me := by rw [cliAt_openCh, hme]
  have hcheq : ch = (s.chs[name]?).getD (Ch.new x) := by
    rw [← hsame]
    rcases hold with hold | ⟨hnone, hnew⟩
    · rw [hold]
      rfl
    · rw [hnone, hnew]
      rfl
  obtain ⟨d, hd, hinv⟩ := h.joined.invits
  rw [hme] at hd
  cases hd
  -- the tests of the loop are those of the state it began in
  have hadm : Admitted s c name pass ↔ refusal me ch name pass = none := by
    rw [refusal_eq_none]
    unfold Admitted
    rw [← hsame]
    rcases hold with hold | ⟨hnone, hnew⟩
    · rw [hold]
      simp only [Option.all_some, decide_eq_true_eq]
      simp only [Admits, hinv name hfresh.2]
    · rw [hnone, hnew]
      exact iff_of_true rfl ⟨fun hne => absurd rfl hne, (by decide : 1 < UINT_MAX), fun h => by cases h⟩
  have hlet : refusal me ch name pass = none → joinOne u x c name pass =
      (letIn (openCh u x name) x me name, joinedMail u x c name (ch.enter x)) := by
    intro hr
    unfold joinOne
    rw [hme, hch]
    simp only [hr]
  have hturn : ∀ m, refusal me ch name pass = some m → joinOne u x c name pass = (u, [(x, m)]) := by
    intro m hr
    unfold joinOne
    rw [hme, hch]
    simp only [hr]
  refine ⟨ch, hcheq, ?_⟩
  by_cases hin : Admitted s c name pass
  · rw [if_pos hin, hlet (hadm.mp hin)]
    obtain ⟨hIl, hchs, ⟨me', hme', -, hreg', hinv'⟩, hnick⟩ := letIn_spec hIv hcv hreg hch
    refine ⟨?_, hIl, h.joined.cons hfresh.1 hfresh.2 (fun k hk => ?_) ?_ ?_, ⟨me', hme', hreg'⟩,
      fun q => ?_, fun k hk => ?_⟩
    · unfold joinedMail
      rw [nickList_congr h.nicks]
    · rw [hchs, if_neg hk, hother k hk]
    · exact ⟨ch.enter x, by rw [hchs, if_pos rfl], mem_insert_iff.mpr (.inl rfl)⟩
    · refine ⟨me', hme', fun e he k hk => ?_⟩
      rw [hme] at he
      cases he
      exact hinv' k hk
    · rw [hnick, ← h.nicks, nickAt, nickAt, cliAt_openCh]
    · by_cases hk' : k = name
      · exact mem_chs.mpr ⟨ch.enter x, by rw [hchs, if_pos hk']⟩
      · obtain ⟨ch', hch'⟩ := mem_chs.mp (h.keys k hk)
        exact mem_chs.mpr ⟨ch', by rw [hchs, if_neg hk', hother k hk', hch']⟩
  · rw [if_neg hin]
    cases hr : refusal me ch name pass with
    | none => exact absurd (hadm.mpr hr) hin
    | some m =>
      rw [hturn m hr]
      exact ⟨⟨m, rfl⟩, rfl⟩

/-- A line told to the members of a channel that `x` has joined. -/
def JoinTold (s : Server) (x : Ptr) (c : Cli) (y : Ptr) (m name : Str) : Prop :=
  ∃ ch, s.chs[name]? = some ch ∧ y ∈ ch.clis ∧
    (m = joinLine c name ∨ m = namesLine c name (nickList s (ch.enter x)))

theorem mem_joinedMail (hy : y ≠ x) (hch : ch = (s.chs[name]?).getD (Ch.new x)) :
    (y, m) ∈ joinedMail s x c name (ch.enter x) ↔ JoinTold s x c y m name := by
  have hnot : (y, m) ∉ (if (ch.enter x).topic ≠ [] then
      [(x, str "332 " ++ c.nick ++ str " " ++ name ++ str " :" ++ (ch.enter x).topic)] else []) := by
    intro hm
    split at hm
    · rw [List.mem_singleton] at hm
      exact hy (congrArg Prod.fst hm)
    · cases hm
  have hmem : y ∈ (ch.enter x).clis ↔ y ∈ ch.clis := by
    show y ∈ ch.clis.insert x ↔ _
    rw [mem_insert_iff]
    exact or_iff_right hy
  unfold joinedMail
  rw [List.mem_append, List.mem_append, or_iff_left hnot, mem_bcast, mem_bcast]
  simp only [hmem]
  unfold JoinTold
  cases hs : s.chs[name]? with
  | none =>
    -- nobody else is on a new channel
    rw [hs] at hch
    subst hch
    have hself : y ∉ (Ch.new x).clis := by
      show y ∉ (∅ : ExtTreeSet Ptr).insert x
      rw [mem_insert_iff]
      exact not_or.mpr ⟨hy, ExtTreeSet.not_mem_empty⟩
    simp [hself]
  | some ch₀ =>
    have heq : ch = ch₀ := by rw [hch, hs]; rfl
    rw [heq]
    constructor
    · rintro (⟨hm, he⟩ | ⟨hm, he⟩)
      · exact ⟨ch₀, rfl, hm, .inl he⟩
      · exact ⟨ch₀, rfl, hm, .inr he⟩
    · rintro ⟨ch, hch', hm, he⟩
      cases hch'
      rcases he with he | he
      · exact .inl ⟨hm, he⟩
      · exact .inr ⟨hm, he⟩

/-- **The loop of JOIN**: the channels that are added, and what others are told. -/
theorem joinRun_spec (a1 : Str) : ∀ (names passes joined : List Str) (u : Server), (∀ n ∈ names, COMMA ∉ n) →
    Track s u x c joined → JoinSafe s x c joined names passes →
    Track s (joinRun x c a1 names passes u).1 x c (joins s x c joined names passes) ∧
    ∀ y m, y ≠ x → ((y, m) ∈ (joinRun x c a1 names passes u).2 ↔
      ∃ name ∈ joins s x c joined names passes, name ∉ joined ∧ JoinTold s x c y m name)
  | [], _, joined, u, _, h, _ => by
    refine ⟨h, fun y m _ => iff_of_false List.not_mem_nil ?_⟩
    rintro ⟨name, hn, hno, -⟩
    exact hno hn
  | name :: names, passes, joined, u, hcomma, h, hsafe => by
    have hrest := fun passes joined u => joinRun_spec a1 names passes joined u fun n hn => hcomma n (by simp [hn])
    -- a name that is only replied to
    have hreply : ∀ m₀ passes, JoinSafe s x c joined names passes →
        Track s (joinRun x c a1 names passes u).1 x c (joins s x c joined names passes) ∧
        ∀ y m, y ≠ x → ((y, m) ∈ (x, m₀) :: (joinRun x c a1 names passes u).2 ↔
          ∃ name ∈ joins s x c joined names passes, name ∉ joined ∧ JoinTold s x c y m name) := by
      intro m₀ passes hs
      obtain ⟨htrack, htold⟩ := hrest passes joined u h hs
      refine ⟨htrack, fun y m hy => ?_⟩
      rw [List.mem_cons, or_iff_right fun he => hy (congrArg Prod.fst he), htold y m hy]
    unfold JoinSafe at hsafe
    unfold joinRun joins
    rw [h.joined.nbChannels]
    by_cases hmany : MAX_CHS_PER_USER - 1 < s.nbChannels x + joined.length
    · rw [if_pos hmany, if_pos hmany]
      refine ⟨h, fun y m hy => iff_of_false (fun hm => ?_) ?_⟩
      · rw [List.mem_singleton] at hm
        exact hy (congrArg Prod.fst hm)
      · rintro ⟨n, hn, hno, -⟩
        exact hno hn
    rw [if_neg hmany] at hsafe
    rw [if_neg hmany, if_neg hmany]
    by_cases hbad : badName name = true
    · rw [if_pos hbad] at hsafe
      rw [if_pos hbad, if_pos (.inl hbad)]
      exact hreply _ passes hsafe
    rw [if_neg hbad] at hsafe
    obtain ⟨hspell, hsafe⟩ := hsafe
    rw [if_neg hbad]
    by_cases hon : On u x name
    · have hon' := h.joined.on_iff.mp hon
      rw [if_pos hon'] at hsafe
      rw [if_pos hon, if_pos (.inr hon')]
      exact hreply _ passes hsafe
    · have hon' : ¬ (On s x name ∨ name ∈ joined) := fun ho => hon (h.joined.on_iff.mpr ho)
      have hno : ¬ (badName name = true ∨ On s x name ∨ name ∈ joined) := fun ho => hon' (ho.resolve_left hbad)
      rw [if_neg hon'] at hsafe
      rw [if_neg hon, if_neg hno]
      have hname : ChName name := chName_of_badName (by simpa using hbad) (hcomma name (by simp))
      obtain ⟨ch, hch, hone⟩ := h.one hname hon hspell (passes.headD [])
      by_cases hin : Admitted s c name (passes.headD [])
      · rw [if_pos hin] at hone hsafe
        rw [if_pos hin]
        obtain ⟨hmail, htrack⟩ := hone
        obtain ⟨htrack', htold⟩ := hrest passes.tail (name :: joined) _ htrack hsafe
        refine ⟨htrack', fun y m hy => ?_⟩
        show (y, m) ∈ (joinOne u x c name (passes.headD [])).2 ++ _ ↔ _
        rw [List.mem_append, htold y m hy, hmail, mem_joinedMail hy hch]
        have hsub : ∀ k ∈ name :: joined, k ∈ joins s x c (name :: joined) names passes.tail :=
          subset_joins names passes.tail (name :: joined)
        constructor
        · rintro (ht | ⟨n, hn, hnj, ht⟩)
          · exact ⟨name, hsub name (by simp), fun hj => hon' (.inr hj), ht⟩
          · exact ⟨n, hn, fun hj => hnj (List.mem_cons_of_mem _ hj), ht⟩
        · rintro ⟨n, hn, hnj, ht⟩
          by_cases he : n = name
          · exact .inl (he ▸ ht)
          · exact .inr ⟨n, hn, fun hj => hnj ((List.mem_cons.mp hj).resolve_left he), ht⟩
      · rw [if_neg hin] at hone hsafe
        rw [if_neg hin]
        obtain ⟨⟨m₀, hm₀⟩, hsame⟩ := hone
        obtain ⟨htrack, htold⟩ := hreply m₀ passes.tail hsafe
        simp only [hm₀, hsame]
        exact ⟨htrack, htold⟩

/-! ## The lines of each command -/

/-- A target of `NOTICE` delivers to the client at `y`; the author need not be on the channel. -/
def NoticeReaches (s : Server) (x : Ptr) (target : Str) (y : Ptr) : Prop :=
  if target.head? = some HASH then ∃ k, s.getCh target = some k ∧ On s y k ∧ y ≠ x
  else s.getCli target = y ∧ y ≠ NULL

/-- The line that announces a topic. -/
def topicLine (c : Cli) (a1 a2 : Str) : Str :=
  if a2 = str ":" ∨ a2 = [] then
    str ":" ++ c.nick ++ str "@localhost" ++ str " TOPIC " ++ a1 ++ str " :No topic is set"
  else str ":" ++ c.nick ++ str "@localhost" ++ str " TOPIC " ++ a1 ++ str " :2" ++ a2

/-- One of the options is not refused; `ch` is the channel before them. -/
def Applied (who : Str → Ptr) (c : Cli) (ar : List Str) (opt : Str) : List (Str × Str) → Ch → Prop
  | [], _ => False
  | o :: os, ch =>
    (optionReply who c ar o.1 o.2 ch = none ∧ opt = o.1) ∨
      Applied who c ar opt os (optionDone who c ar o.1 o.2 ch)

theorem mem_privmsgMails (hy : y ≠ x) : (y, m) ∈ privmsgMails s x c a1 a2 ↔
    m = privmsgLine c a1 a2 ∧ ∃ target ∈ splitArgToSubargs a1, Reaches s x target y := by
  have hline : ∀ m target, (y, m) ∈ privmsgMail s x c a1 a2 target → m = privmsgLine c a1 a2 := by
    intro m target hm
    unfold privmsgMail at hm
    repeat' split at hm
    all_goals first
      | exact (mem_bcastOthers.mp hm).2.2
      | exact absurd (congrArg Prod.fst (List.mem_singleton.mp hm)) hy
      | exact congrArg Prod.snd (List.mem_singleton.mp hm)
      | cases hm
  unfold privmsgMails
  rw [List.mem_flatMap]
  constructor
  · rintro ⟨target, ht, hm⟩
    exact ⟨hline m target hm, target, ht, (reaches_iff c a1 a2 hy).mp ⟨m, hm⟩⟩
  · rintro ⟨rfl, target, ht, hr⟩
    obtain ⟨m, hm⟩ := (reaches_iff c a1 a2 hy).mpr hr
    exact ⟨target, ht, hline m target hm ▸ hm⟩

theorem mem_noticeMails (hy : y ≠ x) : (y, m) ∈ noticeMails s x c a1 a2 ↔
    m = noticeLine c a1 a2 ∧ ∃ target ∈ splitArgToSubargs a1, NoticeReaches s x target y := by
  have hone : ∀ target, (y, m) ∈ noticeMail s x c a1 a2 target ↔
      m = noticeLine c a1 a2 ∧ NoticeReaches s x target y := by
    intro target
    unfold noticeMail NoticeReaches
    split
    · cases hg : s.getCh target with
      | none => simp
      | some k =>
        obtain ⟨ch, hch⟩ := mem_chs.mp (getCh_some hg).1
        simp only [Option.bind_some, hch, mem_bcastOthers, Option.some.injEq, exists_eq_left', on_iff hch]
        exact ⟨fun h => ⟨h.2.2, h.1, h.2.1⟩, fun h => ⟨h.2.1, h.2.2, h.1⟩⟩
    · by_cases hto : s.getCli target = NULL
      · rw [if_pos hto]
        refine iff_of_false List.not_mem_nil ?_
        rintro ⟨-, rfl, hne⟩
        exact hne hto
      · rw [if_neg hto, List.mem_singleton, Prod.mk.injEq]
        constructor
        · rintro ⟨rfl, rfl⟩
          exact ⟨rfl, rfl, hto⟩
        · rintro ⟨rfl, rfl, -⟩
          exact ⟨rfl, rfl⟩
  unfold noticeMails
  rw [List.mem_flatMap]
  simp only [hone]
  constructor
  · rintro ⟨target, ht, hm, hr⟩
    exact ⟨hm, target, ht, hr⟩
  · rintro ⟨hm, target, ht, hr⟩
    exact ⟨target, ht, hm, hr⟩

theorem mem_partMails (hI : Inv s) (hy : y ≠ x) (hsafe : PartSafe s x a1 (splitArgToSubargs a1)) :
    (y, m) ∈ partMails s x c a1 text ↔ m = partLine c a1 text ∧ On s x a1 ∧ On s y a1 := by
  unfold partMails
  rw [List.mem_flatMap]
  constructor
  · rintro ⟨i, hi, hm⟩
    unfold partMail at hm
    split at hm
    · exact absurd (congrArg Prod.fst (List.mem_singleton.mp hm)) hy
    cases hch : s.chs[i]? with
    | none =>
      rw [hch] at hm
      cases hm
    | some ch =>
      rw [hch] at hm
      by_cases hx : x ∈ ch.clis
      · simp only [if_pos hx] at hm
        obtain ⟨hyc, hline⟩ := mem_bcast.mp hm
        obtain ⟨rfl, -⟩ := hsafe.single hI hi ⟨ch, hch, hx⟩
        exact ⟨hline, ⟨ch, hch, hx⟩, ch, hch, hyc⟩
      · simp only [if_neg hx] at hm
        exact absurd (congrArg Prod.fst (List.mem_singleton.mp hm)) hy
  · rintro ⟨rfl, hx, ch, hch, hyc⟩
    have hmem : a1 ∈ s.chs := mem_chs.mpr ⟨ch, hch⟩
    refine ⟨a1, by rw [split_chName (hI.ch_name a1 hmem)]; simp, ?_⟩
    unfold partMail
    rw [if_neg (by rw [getCh_self hI hmem]; simp), hch]
    simp only [if_pos ((on_iff hch).mp hx)]
    exact mem_bcast.mpr ⟨hyc, rfl⟩

theorem mem_kickMail {who : Str → Ptr} (hy : y ≠ x) : ∀ (targets : List Str) (ch : Ch),
    ((y, m) ∈ kickMail who x k line ch targets ↔
      m = line ∧ y ∈ ch.clis ∧ ∃ t ∈ targets, who t ∈ ch.clis)
  | [], ch => by simp [kickMail]
  | t :: targets, ch => by
    unfold kickMail
    by_cases ht : who t ∈ ch.clis
    · rw [if_pos ht, List.mem_append, mem_bcast, mem_kickMail hy targets (ch.drop (who t))]
      constructor
      · rintro (⟨hyc, hm⟩ | ⟨hm, hyc, -⟩)
        · exact ⟨hm, hyc, t, by simp, ht⟩
        · rw [clis_drop, mem_erase_iff] at hyc
          exact ⟨hm, hyc.2, t, by simp, ht⟩
      · rintro ⟨hm, hyc, -⟩
        exact .inl ⟨hyc, hm⟩
    · rw [if_neg ht, List.mem_cons, or_iff_right fun he => hy (congrArg Prod.fst he),
        mem_kickMail hy targets ch]
      simp [ht]

theorem mem_kickMails (hI : Inv s) (hy : y ≠ x)
    (hsafe : KickSafe s x a1 (splitArgToSubargs a2) (splitArgToSubargs a1)) :
    (y, m) ∈ kickMails s x c a1 a2 text ↔ m = kickLine c a1 a2 text ∧ ∃ ch, s.chs[a1]? = some ch ∧
      x ∈ ch.adms ∧ y ∈ ch.clis ∧ ∃ t ∈ splitArgToSubargs a2, s.getCli t ∈ ch.clis := by
  unfold kickMails
  rw [List.mem_flatMap]
  constructor
  · rintro ⟨i, hi, hm⟩
    unfold kickItem at hm
    split at hm
    · exact absurd (congrArg Prod.fst (List.mem_singleton.mp hm)) hy
    cases hch : s.chs[i]? with
    | none =>
      rw [hch] at hm
      cases hm
    | some ch =>
      rw [hch] at hm
      by_cases hx : x ∉ ch.clis
      · simp only [if_pos hx] at hm
        exact absurd (congrArg Prod.fst (List.mem_singleton.mp hm)) hy
      by_cases hop : x ∉ ch.adms
      · simp only [if_neg hx, if_pos hop] at hm
        exact absurd (congrArg Prod.fst (List.mem_singleton.mp hm)) hy
      simp only [if_neg hx, if_neg hop] at hm
      obtain ⟨hline, hyc, t, ht, htm⟩ := (mem_kickMail hy _ ch).mp hm
      have hi1 : i = a1 := by
        rcases hsafe.single hI hi hch (not_not.mp hop) with hget | hno
        · rw [split_of_getCh hI (by rw [hget]; simp), List.mem_singleton] at hi
          exact hi
        · exact absurd htm (hno t ht)
      exact ⟨hline, ch, hi1 ▸ hch, not_not.mp hop, hyc, t, ht, htm⟩
  · rintro ⟨rfl, ch, hch, hop, hyc, ht⟩
    have hmem : a1 ∈ s.chs := mem_chs.mpr ⟨ch, hch⟩
    refine ⟨a1, by rw [split_chName (hI.ch_name a1 hmem)]; simp, ?_⟩
    unfold kickItem
    rw [if_neg (by rw [getCh_self hI hmem]; simp), hch]
    simp only [if_neg (not_not.mpr (hI.adm a1 ch hch x hop)), if_neg (not_not.mpr hop)]
    exact (mem_kickMail hy _ ch).mpr ⟨rfl, hyc, ht⟩

theorem mem_inviteMail (hI : Inv s) (hy : y ≠ x) : (y, m) ∈ inviteMail s x c a1 a2 ↔
    m = inviteLine c a1 a2 ∧ Invites s x a1 a2 ∧ (y = s.getCli a1 ∨ On s y a2) := by
  have hreply : ∀ m₀, (y, m) ∈ [(x, m₀)] → False := fun m₀ hm =>
    hy (congrArg Prod.fst (List.mem_singleton.mp hm))
  unfold inviteMail
  by_cases hto : s.getCli a1 = NULL
  · rw [if_pos hto]
    exact iff_of_false (hreply _) fun h => h.2.1.1 hto
  rw [if_neg hto]
  by_cases hget : s.getCh a2 = none
  · rw [if_pos hget]
    refine iff_of_false (hreply _) ?_
    rintro ⟨-, ⟨-, ch, hch, -⟩, -⟩
    rw [getCh_self hI (mem_chs.mpr ⟨ch, hch⟩)] at hget
    cases hget
  rw [if_neg hget]
  cases hch : s.chs[a2]? with
  | none => exact iff_of_false List.not_mem_nil fun h => by simp [Invites, hch] at h
  | some ch =>
    have hinv : Invites s x a1 a2 ↔ MayInvite x ch ∧ s.getCli a1 ∉ ch.clis := by
      simp [Invites, hch, hto]
    rw [hinv, on_iff hch]
    show (y, m) ∈ (if x ∉ ch.clis then _ else _) ↔ _
    by_cases hx : x ∉ ch.clis
    · rw [if_pos hx]
      exact iff_of_false (hreply _) fun h => hx h.2.1.1.1
    rw [if_neg hx]
    by_cases hop : x ∉ ch.adms ∧ ch.optI = true
    · rw [if_pos hop]
      refine iff_of_false (hreply _) ?_
      rintro ⟨-, ⟨⟨-, h | h⟩, -⟩, -⟩
      · exact hop.1 h
      · rw [hop.2] at h
        cases h
    rw [if_neg hop]
    have hmay : MayInvite x ch := by
      refine ⟨not_not.mp hx, ?_⟩
      by_cases hadm : x ∈ ch.adms
      · exact .inl hadm
      · refine .inr ?_
        cases hi : ch.optI with
        | false => rfl
        | true => exact absurd ⟨hadm, hi⟩ hop
    by_cases hon : s.getCli a1 ∈ ch.clis
    · rw [if_pos hon]
      exact iff_of_false (hreply _) fun h => h.2.1.2 hon
    · rw [if_neg hon, List.mem_append, mem_bcast]
      simp only [List.mem_cons, Prod.mk.injEq, List.not_mem_nil, or_false]
      constructor
      · rintro ((⟨h, -⟩ | ⟨h, hm⟩) | ⟨h, hm⟩)
        · exact absurd h hy
        · exact ⟨hm, ⟨hmay, hon⟩, .inl h⟩
        · exact ⟨hm, ⟨hmay, hon⟩, .inr h⟩
      · rintro ⟨hm, -, h | h⟩
        · exact .inl (.inr ⟨h, hm⟩)
        · exact .inr ⟨h, hm⟩

theorem mem_topicMail (hI : Inv s) (hy : y ≠ x) {a2 : Option Str} : (y, m) ∈ topicMail s x c a1 a2 ↔
    ∃ ch t, s.chs[a1]? = some ch ∧ MayTopic x ch ∧ a2 = some t ∧ y ∈ ch.clis ∧ m = topicLine c a1 t := by
  have hreply : ∀ m₀, (y, m) ∈ [(x, m₀)] → False := fun m₀ hm =>
    hy (congrArg Prod.fst (List.mem_singleton.mp hm))
  unfold topicMail
  by_cases hget : s.getCh a1 = none
  · rw [if_pos hget]
    refine iff_of_false (hreply _) ?_
    rintro ⟨ch, -, hch, -⟩
    rw [getCh_self hI (mem_chs.mpr ⟨ch, hch⟩)] at hget
    cases hget
  rw [if_neg hget]
  cases hch : s.chs[a1]? with
  | none => exact iff_of_false List.not_mem_nil fun ⟨_, _, h, _⟩ => by cases h
  | some ch =>
    simp only [Option.some.injEq]
    show (y, m) ∈ (if x ∉ ch.clis then _ else _) ↔ _
    by_cases hx : x ∉ ch.clis
    · rw [if_pos hx]
      refine iff_of_false (hreply _) ?_
      rintro ⟨_, t, rfl, hmay, -⟩
      exact hx hmay.1
    rw [if_neg hx]
    by_cases hop : x ∉ ch.adms ∧ ch.optT = true
    · rw [if_pos hop]
      refine iff_of_false (hreply _) ?_
      rintro ⟨_, t, rfl, ⟨-, h | h⟩, -⟩
      · exact hop.1 h
      · rw [hop.2] at h
        cases h
    rw [if_neg hop]
    have hmay : MayTopic x ch := by
      refine ⟨not_not.mp hx, ?_⟩
      by_cases hadm : x ∈ ch.adms
      · exact .inl hadm
      · refine .inr ?_
        cases ht : ch.optT with
        | false => rfl
        | true => exact absurd ⟨hadm, ht⟩ hop
    cases a2 with
    | none =>
      refine iff_of_false (fun hm => ?_) fun ⟨_, _, _, _, h, _⟩ => by cases h
      simp only at hm
      split at hm <;> exact hreply _ hm
    | some t =>
      have hset : (y, m) ∈ setTopicMail x c a1 t ch ↔ y ∈ ch.clis ∧ m = topicLine c a1 t := by
        unfold setTopicMail topicLine
        split
        · rw [List.mem_append, or_iff_left (hreply _), mem_bcast]
        · rw [List.mem_cons, or_iff_right fun he => hy (congrArg Prod.fst he), mem_bcast]
      show (y, m) ∈ setTopicMail x c a1 t ch ↔ _
      rw [hset]
      constructor
      · rintro ⟨hyc, hm⟩
        exact ⟨ch, t, rfl, hmay, rfl, hyc, hm⟩
      · rintro ⟨_, t', rfl, -, ht, hyc, hm⟩
        cases ht
        exact ⟨hyc, hm⟩

theorem mem_modeMail {who : Str → Ptr} (hy : y ≠ x) : ∀ (os : List (Str × Str)) (ch : Ch),
    ((y, m) ∈ modeMail who x c ar os ch ↔
      y ∈ ch.clis ∧ ∃ opt, Applied who c ar opt os ch ∧ m = modeLine c (argD ar 1) opt)
  | [], ch => by simp [modeMail, Applied]
  | o :: os, ch => by
    unfold modeMail Applied optionMail
    rw [List.mem_append, mem_modeMail hy os, clis_optionDone]
    cases hr : optionReply who c ar o.1 o.2 ch with
    | some r =>
      have hno : (y, m) ∉ [(x, r)] := fun hm => hy (congrArg Prod.fst (List.mem_singleton.mp hm))
      simp [hno]
    | none =>
      rw [mem_bcast]
      constructor
      · rintro (⟨hyc, hm⟩ | ⟨hyc, opt, happ, hm⟩)
        · exact ⟨hyc, o.1, .inl ⟨rfl, rfl⟩, hm⟩
        · exact ⟨hyc, opt, .inr happ, hm⟩
      · rintro ⟨hyc, opt, ⟨-, rfl⟩ | happ, hm⟩
        · exact .inl ⟨hyc, hm⟩
        · exact .inr ⟨hyc, opt, happ, hm⟩

theorem mem_modeChMail (hI : Inv s) (hy : y ≠ x) : (y, m) ∈ modeChMail s x c ar ↔
    ∃ ch opt, s.chs[argD ar 1]? = some ch ∧ x ∈ ch.adms ∧ y ∈ ch.clis ∧
      Applied s.getCli c ar opt (modePairs ar ar.length 2) ch ∧ m = modeLine c (argD ar 1) opt := by
  have hreply : ∀ m₀, (y, m) ∈ [(x, m₀)] → False := fun m₀ hm =>
    hy (congrArg Prod.fst (List.mem_singleton.mp hm))
  unfold modeChMail
  by_cases hget : s.getCh (argD ar 1) = none
  · rw [if_pos hget]
    refine iff_of_false (hreply _) ?_
    rintro ⟨ch, -, hch, -⟩
    rw [getCh_self hI (mem_chs.mpr ⟨ch, hch⟩)] at hget
    cases hget
  rw [if_neg hget]
  cases hch : s.chs[argD ar 1]? with
  | none => exact iff_of_false List.not_mem_nil fun ⟨_, _, h, _⟩ => by cases h
  | some ch =>
    simp only [Option.some.injEq]
    show (y, m) ∈ (if x ∉ ch.clis then _ else _) ↔ _
    by_cases hx : x ∉ ch.clis
    · rw [if_pos hx]
      refine iff_of_false (hreply _) ?_
      rintro ⟨_, opt, rfl, hop, -⟩
      exact hx (hI.adm _ ch hch x hop)
    rw [if_neg hx]
    by_cases hop : x ∉ ch.adms
    · rw [if_pos hop]
      refine iff_of_false (hreply _) ?_
      rintro ⟨_, opt, rfl, h, -⟩
      exact hop h
    rw [if_neg hop]
    by_cases h2 : ar.length = 2
    · have hnone : modePairs ar ar.length 2 = [] := by rw [h2, modePairs, if_neg (by omega)]
      rw [if_pos h2, hnone]
      refine iff_of_false (hreply _) ?_
      rintro ⟨_, opt, rfl, -, -, happ, -⟩
      exact happ
    · rw [if_neg h2, mem_modeMail hy]
      constructor
      · rintro ⟨hyc, opt, happ, hm⟩
        exact ⟨ch, opt, rfl, not_not.mp hop, hyc, happ, hm⟩
      · rintro ⟨_, opt, rfl, -, hyc, happ, hm⟩
        exact ⟨hyc, opt, happ, hm⟩

/-! ## The table -/

/-- The channels that a `JOIN` adds. -/
def joinNames (s : Server) (x : Ptr) (c : Cli) (ar : List Str) : List Str :=
  if c.registered = false ∨ ar.length < 2 ∨ (ar.length = 2 ∧ argD ar 1 = str "0") ∨
      tooManyTargets (splitArgToSubargs (argD ar 1)) = true then []
  else joins s x c [] (splitArgToSubargs (argD ar 1)) (joinKeys ar)

instance : Decidable (CmdIs ar l) := by
  unfold CmdIs
  infer_instance

/-- The list of a `PART`, or the one that `JOIN 0` stands for. -/
def leftName (s : Server) (x : Ptr) (ar : List Str) : Str :=
  if CmdIs ar "JOIN" then allNames s x else argD ar 1

/-- What the command of `x` tells the client at `y`. -/
inductive Relay (s : Server) (x : Ptr) (c : Cli) (ar : List Str) (y : Ptr) : Str → Prop
  | quit (d : Cli) : CmdIs ar "QUIT" → s.cliAt y = some d →
      Relay s x c ar y (quitLine d (quitText ar))
  | privmsg (target : Str) : CmdIs ar "PRIVMSG" → c.registered = true → 3 ≤ ar.length →
      tooManyTargets (splitArgToSubargs (argD ar 1)) = false →
      target ∈ splitArgToSubargs (argD ar 1) → Reaches s x target y →
      Relay s x c ar y (privmsgLine c (argD ar 1) (argD ar 2))
  | notice (target : Str) : CmdIs ar "NOTICE" → c.registered = true → 3 ≤ ar.length →
      target ∈ splitArgToSubargs (argD ar 1) → NoticeReaches s x target y →
      Relay s x c ar y (noticeLine c (argD ar 1) (argD ar 2))
  | join (name m : Str) : CmdIs ar "JOIN" → name ∈ joinNames s x c ar → JoinTold s x c y m name →
      Relay s x c ar y m
  | part : PartCmd ar → c.registered = true → On s x (leftName s x ar) → On s y (leftName s x ar) →
      Relay s x c ar y (partLine c (leftName s x ar) (partText ar))
  | kick (ch : Ch) (target : Str) : CmdIs ar "KICK" → c.registered = true →
      s.chs[argD ar 1]? = some ch → x ∈ ch.adms → y ∈ ch.clis →
      target ∈ splitArgToSubargs (argD ar 2) → s.getCli target ∈ ch.clis →
      Relay s x c ar y (kickLine c (argD ar 1) (argD ar 2) (kickText ar))
  | invite : CmdIs ar "INVITE" → c.registered = true → Invites s x (argD ar 1) (argD ar 2) →
      y = s.getCli (argD ar 1) ∨ On s y (argD ar 2) →
      Relay s x c ar y (inviteLine c (argD ar 1) (argD ar 2))
  | topic (ch : Ch) (t : Str) : CmdIs ar "TOPIC" → c.registered = true →
      s.chs[argD ar 1]? = some ch → MayTopic x ch → ar[2]? = some t → y ∈ ch.clis →
      Relay s x c ar y (topicLine c (argD ar 1) t)
  | mode (ch : Ch) (opt : Str) : CmdIs ar "MODE" → c.registered = true →
      s.chs[argD ar 1]? = some ch → x ∈ ch.adms → y ∈ ch.clis →
      Applied s.getCli c ar opt (modePairs ar ar.length 2) ch →
      Relay s x c ar y (modeLine c (argD ar 1) opt)

/-- Replies are not for others. -/
theorem not_mem_reply (hy : y ≠ x) {m₀ : Str} : (y, m) ∉ [(x, m₀)] := fun hm =>
  hy (congrArg Prod.fst (List.mem_singleton.mp hm))

theorem mem_registeredRun (hy : y ≠ x) {r : Server × Mail} :
    (y, m) ∈ (registeredRun s x c r).2 ↔ c.registered = true ∧ (y, m) ∈ r.2 := by
  unfold registeredRun
  cases hreg : c.registered with
  | false =>
    rw [if_pos rfl]
    exact iff_of_false (not_mem_reply hy) fun h => by cases h.1
  | true =>
    rw [if_neg (by decide)]
    exact (and_iff_right rfl).symm

/-- `PART` with the arguments of the line, or those `JOIN 0` stands for. -/
theorem mem_partRun (hI : Inv s) (hy : y ≠ x)
    (hsafe : c.registered = true → 2 ≤ ar.length → PartSafe s x (argD ar 1) (splitArgToSubargs (argD ar 1))) :
    (y, m) ∈ (partRun s x c ar).2 ↔ c.registered = true ∧ m = partLine c (argD ar 1) (partText ar) ∧
      On s x (argD ar 1) ∧ On s y (argD ar 1) := by
  unfold partRun
  rw [mem_registeredRun hy]
  refine and_congr_right fun hreg => ?_
  by_cases h2 : ar.length < 2
  · rw [if_pos h2]
    refine iff_of_false (not_mem_reply hy) ?_
    rintro ⟨-, hon, -⟩
    rw [argD_of_length (by omega)] at hon
    exact absurd (hI.ch_name _ (mem_of_on hon)).long (by decide)
  · rw [if_neg h2]
    exact mem_partMails hI hy (hsafe hreg (by omega))

theorem mem_joinZero (hI : Inv s) (hc : s.cliAt x = some c) (hy : y ≠ x) (hcmd : CmdIs ar "JOIN")
    (hok : JoinOk s x ar) (hz : ar.length = 2 ∧ argD ar 1 = str "0") :
    (y, m) ∈ (partRun s x c (ar.set 1 (allNames s x))).2 ↔ c.registered = true ∧
      m = partLine c (leftName s x ar) (partText ar) ∧ On s x (leftName s x ar) ∧
        On s y (leftName s x ar) := by
  have hset : argD (ar.set 1 (allNames s x)) 1 = allNames s x :=
    argD_of_getElem? (by rw [List.getElem?_set_self (by omega)])
  have htext : partText (ar.set 1 (allNames s x)) = partText ar := by
    unfold partText
    rw [List.getElem?_set_ne (by omega)]
  have hname : leftName s x ar = allNames s x := if_pos hcmd
  rw [mem_partRun hI hy, hset, htext, hname]
  intro hreg _
  rw [hset, partSafe_allNames hI]
  obtain ⟨a1, ha1⟩ := exists_arg ar 1 (by omega)
  have hok' := (joinOk_iff hc hreg ha1).mp hok
  rw [argD_of_getElem? ha1] at hz
  rw [if_pos hz] at hok'
  exact hok'

/-- `JOIN` with a list, as a `PartCmd`. -/
theorem partCmd_join_iff (hcmd : CmdIs ar "JOIN") : PartCmd ar ↔ ar.length = 2 ∧ argD ar 1 = str "0" := by
  unfold PartCmd
  rw [or_iff_right fun h => absurd (h.unique hcmd) (by decide), and_iff_right hcmd]
  refine and_congr_right fun hlen => ?_
  obtain ⟨a1, ha1⟩ := exists_arg ar 1 (by omega)
  rw [ha1, argD_of_getElem? ha1, Option.some.injEq]

/-- The channels that `JOIN` adds its author to. -/
theorem joined_execJoinRun (hI : Inv s) (hc : s.cliAt x = some c) (hcmd : CmdIs ar "JOIN")
    (hpart : ¬ PartCmd ar) (hok : JoinOk s x ar) :
    Joined s (execJoinRun s x c ar).1 x c (joinNames s x c ar) := by
  have hz : ¬ (ar.length = 2 ∧ argD ar 1 = str "0") := fun h => hpart ((partCmd_join_iff hcmd).mpr h)
  unfold execJoinRun joinNames registeredRun
  cases hreg : c.registered with
  | false =>
    rw [if_pos rfl, if_pos (.inl rfl)]
    exact .refl hc
  | true =>
    rw [if_neg (by decide)]
    by_cases h2 : ar.length < 2
    · rw [if_pos h2, if_pos (.inr (.inl h2))]
      exact .refl hc
    rw [if_neg h2, if_neg hz]
    by_cases hmany : tooManyTargets (splitArgToSubargs (argD ar 1)) = true
    · rw [if_pos hmany, if_pos (.inr (.inr (.inr hmany)))]
      exact .refl hc
    · rw [if_neg hmany, if_neg (by simp [h2, hz, hmany])]
      obtain ⟨a1, ha1⟩ := exists_arg ar 1 (by omega)
      rw [argD_of_getElem? ha1] at hz hmany ⊢
      have hok' := (joinOk_iff hc hreg ha1).mp hok
      rw [if_neg hz] at hok'
      exact (joinRun_spec a1 (splitArgToSubargs a1) (joinKeys ar) [] s
        (fun n hn => splitArgToSubargs_comma hn) (.refl hI hc hreg) (hok' (by simpa using hmany))).1.joined

/-- What `JOIN` prepares for others. -/
theorem mem_execJoinRun (hI : Inv s) (hc : s.cliAt x = some c) (hy : y ≠ x) (hcmd : CmdIs ar "JOIN")
    (hok : JoinOk s x ar) : (y, m) ∈ (execJoinRun s x c ar).2 ↔
      (∃ name ∈ joinNames s x c ar, JoinTold s x c y m name) ∨
      (PartCmd ar ∧ c.registered = true ∧ m = partLine c (leftName s x ar) (partText ar) ∧
        On s x (leftName s x ar) ∧ On s y (leftName s x ar)) := by
  unfold execJoinRun joinNames
  rw [mem_registeredRun hy, partCmd_join_iff hcmd]
  cases hreg : c.registered with
  | false => simp
  | true =>
    simp only [true_and]
    by_cases h2 : ar.length < 2
    · rw [if_pos h2, if_pos (.inr (.inl h2))]
      refine iff_of_false (not_mem_reply hy) ?_
      rintro (⟨n, hn, -⟩ | ⟨⟨hlen, -⟩, -⟩)
      · cases hn
      · omega
    rw [if_neg h2]
    by_cases hz : ar.length = 2 ∧ argD ar 1 = str "0"
    · rw [if_pos hz, if_pos (.inr (.inr (.inl hz))), mem_joinZero hI hc hy hcmd hok hz, hreg]
      simp [hz]
    rw [if_neg hz]
    by_cases hmany : tooManyTargets (splitArgToSubargs (argD ar 1)) = true
    · rw [if_pos hmany, if_pos (.inr (.inr (.inr hmany)))]
      refine iff_of_false (not_mem_reply hy) ?_
      rintro (⟨n, hn, -⟩ | ⟨h, -⟩)
      · cases hn
      · exact hz h
    · rw [if_neg hmany, if_neg (by simp [h2, hz, hmany])]
      obtain ⟨a1, ha1⟩ := exists_arg ar 1 (by omega)
      have harg := argD_of_getElem? ha1
      rw [harg] at hz hmany ⊢
      have hok' := (joinOk_iff hc hreg ha1).mp hok
      rw [if_neg hz] at hok'
      have hspec := joinRun_spec a1 (splitArgToSubargs a1) (joinKeys ar) [] s
        (fun n hn => splitArgToSubargs_comma hn) (.refl hI hc hreg) (hok' (by simpa using hmany))
      rw [hspec.2 y m hy]
      simp [hz]

theorem not_mem_welcomeMail (hy : y ≠ x) : (y, m) ∉ welcomeMail x c := by
  unfold welcomeMail
  split
  · exact not_mem_reply hy
  · exact List.not_mem_nil

theorem not_mem_passMail (hy : y ≠ x) : (y, m) ∉ passMail s x c ar := by
  unfold passMail
  split
  · exact not_mem_reply hy
  split
  · exact not_mem_reply hy
  rw [List.mem_append, not_or]
  refine ⟨?_, not_mem_welcomeMail hy⟩
  split
  · exact not_mem_reply hy
  · exact List.not_mem_nil

theorem not_mem_nickMail (hy : y ≠ x) : (y, m) ∉ nickMail s x c ar := by
  unfold nickMail
  repeat' split
  all_goals first | exact not_mem_reply hy | exact not_mem_welcomeMail hy

theorem not_mem_userMail (hy : y ≠ x) : (y, m) ∉ userMail x c ar := by
  unfold userMail
  repeat' split
  all_goals first | exact not_mem_reply hy | exact not_mem_welcomeMail hy

theorem not_mem_capMail (hy : y ≠ x) : (y, m) ∉ capMail x c ar := by
  unfold capMail
  repeat' split
  all_goals first | exact not_mem_reply hy | exact List.not_mem_nil

theorem not_mem_whoisMails (hy : y ≠ x) : (y, m) ∉ whoisMails s x ar := by
  have hone : ∀ nick, (y, m) ∉ whoisMail s x nick := by
    intro nick
    unfold whoisMail
    split
    · simp [hy]
    · exact not_mem_reply hy
  unfold whoisMails
  split
  · rw [List.mem_flatMap]
    rintro ⟨nick, -, hm⟩
    exact hone nick hm
  · exact not_mem_reply hy

theorem not_mem_modeCliMail (hy : y ≠ x) : (y, m) ∉ modeCliMail s x c ar := by
  unfold modeCliMail
  repeat' split
  all_goals first | exact not_mem_reply hy | exact List.not_mem_nil

/-- **What others are told** is what `Relay` lists. -/
theorem relay_iff (hI : Inv s) (hc : s.cliAt x = some c) (hsafe : CmdSafe s x ar) (hy : y ≠ x) :
    (y, m) ∈ (cmdRun s x c ar).2 ↔ Relay s x c ar y m := by
  have hpartSafe : CmdIs ar "PART" → c.registered = true → 2 ≤ ar.length →
      PartSafe s x (argD ar 1) (splitArgToSubargs (argD ar 1)) := by
    intro hcmd hreg h2
    obtain ⟨a1, ha1⟩ := exists_arg ar 1 (by omega)
    rw [argD_of_getElem? ha1]
    exact hsafe.part hcmd ((isReg_iff hc).mpr hreg) a1 ha1
  have hkickSafe : CmdIs ar "KICK" → c.registered = true → 3 ≤ ar.length →
      KickSafe s x (argD ar 1) (splitArgToSubargs (argD ar 2)) (splitArgToSubargs (argD ar 1)) := by
    intro hcmd hreg h3
    obtain ⟨a1, ha1⟩ := exists_arg ar 1 (by omega)
    obtain ⟨a2, ha2⟩ := exists_arg ar 2 (by omega)
    rw [argD_of_getElem? ha1, argD_of_getElem? ha2]
    exact hsafe.kick hcmd ((isReg_iff hc).mpr hreg) a1 ha1 a2 ha2
  have hname : CmdIs ar "PART" → leftName s x ar = argD ar 1 := fun hcmd =>
    if_neg fun h => absurd (h.unique hcmd) (by decide)
  constructor
  · refine cmdRun_cases (P := fun r => (y, m) ∈ r.2 → Relay s x c ar y m) (fun _ h => by cases h)
      (fun _ h => absurd h (not_mem_passMail hy)) (fun _ h => absurd h (not_mem_nickMail hy))
      (fun _ h => absurd h (not_mem_userMail hy)) (fun hcmd => ?quit)
      (fun _ h => absurd h (not_mem_reply hy)) (fun _ h => absurd h (not_mem_capMail hy))
      (fun _ h => absurd h (not_mem_whoisMails hy)) (fun hcmd => ?privmsg) (fun hcmd => ?notice)
      (fun hcmd => ?join) (fun hcmd => ?part) (fun hcmd => ?mode) (fun hcmd => ?topic)
      (fun hcmd => ?invite) (fun hcmd => ?kick) (fun _ _ _ h => absurd h (not_mem_reply hy))
    case quit =>
      intro hm
      obtain ⟨d, hd, he⟩ := List.mem_map.mp hm
      obtain ⟨rfl, rfl⟩ := Prod.mk.inj he
      exact .quit d hcmd (cliAt_of_mem hI hd)
    case privmsg =>
      intro hm
      obtain ⟨hreg, hm⟩ := (mem_registeredRun hy).mp hm
      split at hm
      · exact absurd hm (not_mem_reply hy)
      split at hm
      · exact absurd hm (not_mem_reply hy)
      split at hm
      · exact absurd hm (not_mem_reply hy)
      · rename_i h1 h2 hmany
        obtain ⟨rfl, target, ht, hr⟩ := (mem_privmsgMails hy).mp hm
        have hpos := length_pos_of_cmdIs hcmd
        exact .privmsg target hcmd hreg (by omega) (by simpa using hmany) ht hr
    case notice =>
      intro hm
      unfold noticeRun at hm
      split at hm
      · cases hm
      · rename_i h
        push Not at h
        obtain ⟨rfl, target, ht, hr⟩ := (mem_noticeMails hy).mp hm
        exact .notice target hcmd (by simpa using h.1) h.2 ht hr
    case join =>
      intro hm
      rcases (mem_execJoinRun hI hc hy hcmd (hsafe.join hcmd)).mp hm with
        ⟨name, hn, ht⟩ | ⟨hp, hreg, rfl, hx, hyc⟩
      · exact .join name m hcmd hn ht
      · exact .part hp hreg hx hyc
    case part =>
      intro hm
      obtain ⟨hreg, rfl, hx, hyc⟩ := (mem_partRun hI hy (hpartSafe hcmd)).mp hm
      rw [← hname hcmd] at hx hyc ⊢
      exact .part (.inl hcmd) hreg hx hyc
    case mode =>
      intro hm
      unfold modeRun at hm
      split at hm
      · exact absurd hm (not_mem_reply hy)
      split at hm
      · obtain ⟨hreg, hm⟩ := (mem_registeredRun hy).mp hm
        obtain ⟨ch, opt, hch, hop, hyc, happ, rfl⟩ := (mem_modeChMail hI hy).mp hm
        exact .mode ch opt hcmd hreg hch hop hyc happ
      · exact absurd hm (not_mem_modeCliMail hy)
    case topic =>
      intro hm
      obtain ⟨hreg, hm⟩ := (mem_registeredRun hy).mp hm
      split at hm
      · exact absurd hm (not_mem_reply hy)
      · obtain ⟨ch, t, hch, hmay, ht, hyc, rfl⟩ := (mem_topicMail hI hy).mp hm
        exact .topic ch t hcmd hreg hch hmay ht hyc
    case invite =>
      intro hm
      obtain ⟨hreg, hm⟩ := (mem_registeredRun hy).mp hm
      split at hm
      · exact absurd hm (not_mem_reply hy)
      · obtain ⟨rfl, hinv, hwho⟩ := (mem_inviteMail hI hy).mp hm
        exact .invite hcmd hreg hinv hwho
    case kick =>
      intro hm
      obtain ⟨hreg, hm⟩ := (mem_registeredRun hy).mp hm
      split at hm
      · exact absurd hm (not_mem_reply hy)
      · rename_i h3
        obtain ⟨rfl, ch, hch, hop, hyc, t, ht, htm⟩ :=
          (mem_kickMails hI hy (hkickSafe hcmd hreg (by omega))).mp hm
        exact .kick ch t hcmd hreg hch hop hyc ht htm
  · intro hrelay
    -- a channel is named, so the argument is there
    have hlen : ∀ {k ch}, s.chs[argD ar k]? = some ch → k < ar.length := by
      intro k ch hch
      by_contra hno
      rw [argD_of_length (by omega)] at hch
      exact absurd (hI.ch_name [] (mem_chs.mpr ⟨ch, hch⟩)).long (by decide)
    cases hrelay with
    | quit d hcmd hd =>
      rw [cmdRun_quit hcmd]
      obtain ⟨hmem, rfl⟩ := cliAt_mem hd
      exact List.mem_map.mpr ⟨d, hmem, rfl⟩
    | privmsg target hcmd hreg h3 hfew ht hr =>
      rw [cmdRun_privmsg hcmd]
      unfold privmsgRun
      rw [mem_registeredRun hy, if_neg (by omega), if_neg (by omega), if_neg (by simp [hfew])]
      exact ⟨hreg, (mem_privmsgMails hy).mpr ⟨rfl, target, ht, hr⟩⟩
    | notice target hcmd hreg h3 ht hr =>
      rw [cmdRun_notice hcmd]
      unfold noticeRun
      rw [if_neg (by simp [hreg]; omega)]
      exact (mem_noticeMails hy).mpr ⟨rfl, target, ht, hr⟩
    | join name m hcmd hn ht =>
      rw [cmdRun_join hcmd]
      exact (mem_execJoinRun hI hc hy hcmd (hsafe.join hcmd)).mpr (.inl ⟨name, hn, ht⟩)
    | part hp hreg hx hyc =>
      rcases hp with hcmd | hz
      · rw [hname hcmd] at hx hyc ⊢
        rw [cmdRun_part hcmd, mem_partRun hI hy (hpartSafe hcmd)]
        exact ⟨hreg, rfl, hx, hyc⟩
      · rw [cmdRun_join hz.1]
        exact (mem_execJoinRun hI hc hy hz.1 (hsafe.join hz.1)).mpr (.inr ⟨.inr hz, hreg, rfl, hx, hyc⟩)
    | kick ch t hcmd hreg hch hop hyc ht htm =>
      have h3 : ¬ ar.length < 3 := by
        intro h3
        rw [argD_of_length (k := 2) (by omega)] at ht
        cases ht
      rw [cmdRun_kick hcmd]
      unfold kickRun
      rw [mem_registeredRun hy, if_neg h3]
      exact ⟨hreg, (mem_kickMails hI hy (hkickSafe hcmd hreg (by omega))).mpr
        ⟨rfl, ch, hch, hop, hyc, t, ht, htm⟩⟩
    | invite hcmd hreg hinv hwho =>
      have h3 : ¬ ar.length < 3 := by
        obtain ⟨-, ch, hch, -⟩ := hinv
        have := hlen hch
        omega
      rw [cmdRun_invite hcmd]
      unfold inviteRun
      rw [mem_registeredRun hy, if_neg h3]
      exact ⟨hreg, (mem_inviteMail hI hy).mpr ⟨rfl, hinv, hwho⟩⟩
    | topic ch t hcmd hreg hch hmay ht hyc =>
      have h2 : ¬ ar.length < 2 := by
        have := hlen hch
        omega
      rw [cmdRun_topic hcmd]
      unfold topicRun
      rw [mem_registeredRun hy, if_neg h2]
      exact ⟨hreg, (mem_topicMail hI hy).mpr ⟨ch, t, hch, hmay, ht, hyc, rfl⟩⟩
    | mode ch opt hcmd hreg hch hop hyc happ =>
      have h2 : ¬ ar.length ≤ 1 := by
        have := hlen hch
        omega
      rw [cmdRun_mode hcmd]
      unfold modeRun
      rw [if_neg h2, if_pos (hI.ch_name _ (mem_chs.mpr ⟨ch, hch⟩)).hash, mem_registeredRun hy]
      exact ⟨hreg, (mem_modeChMail hI hy).mpr ⟨ch, opt, hch, hop, hyc, happ, rfl⟩⟩

/-- The frames of a list of lines are empty only for the empty list. -/
theorem frames_eq_nil {ms : List Str} : frames ms = [] ↔ ms = [] := by
  cases ms with
  | nil => simp
  | cons m ms => simp [frame, CRLF]

/-- A line leaves the send buffer of another client alone exactly if it tells that client nothing. -/
theorem untouched_iff {s' : Server} (hI : Inv s) (hc : s.cliAt x = some c)
    (h : s.execLine x line = .ok s') (hd : s.cliAt y = some d) (hy : y ≠ x) :
    (s'.cliAt y).map (·.bufToSend) = some d.bufToSend ↔
      ∀ m, ¬ Relay s x c (splitCmdToArgs line) y m := by
  obtain ⟨d', hd', hbuf, -⟩ := execLine_inbox hI hc h hd
  have hsafe := (execLine_ok_iff hI hc).mp ⟨s', h⟩
  rw [hd', Option.map_some, hbuf, Option.some.injEq, List.append_right_eq_self, frames_eq_nil,
    List.eq_nil_iff_forall_not_mem]
  refine forall_congr' fun m => not_congr ?_
  rw [mem_inbox, relay_iff hI hc hsafe hy]

end FtIrc
