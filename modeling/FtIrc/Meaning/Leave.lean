import FtIrc.Meaning.Basic

/-!
# What PART and KICK come to

Both announce a departure to the channel named by the whole list, so a departure is announced
without a fault only if the list is one name.  `partDone` and `kickDone` are the channels after a
command that does not fail: at most the channel `ar[1]` has changed.
-/

namespace FtIrc

open Std Outcome Server

variable {s s' : Server} {x y p : Ptr} {ar : List Str} {c d : Cli} {k n name m a1 a2 text line : Str}
  {ch : Ch} {mail : Mail} {items targets : List Str}

/-- A name of a channel is a list of one item. -/
theorem split_chName (h : ChName k) : splitArgToSubargs k = [k] :=
  splitArgToSubargs_item (by rintro rfl; exact absurd h.long (by decide)) h.comma

theorem getCh_ne_none (h : s.getCh name ≠ none) : ∃ k ∈ s.chs, toLower k = toLower name := by
  cases hg : s.getCh name with
  | none => exact absurd hg h
  | some k => exact ⟨k, (getCh_some hg).1, (getCh_some hg).2⟩

/-- A list that names a channel up to case is one item. -/
theorem split_of_getCh (hI : Inv s) (h : s.getCh a1 ≠ none) : splitArgToSubargs a1 = [a1] := by
  obtain ⟨k, hk, hlow⟩ := getCh_ne_none h
  have hname := hI.ch_name k hk
  refine splitArgToSubargs_item ?_ fun hc => ?_
  · rintro rfl
    rw [toLower_nil, toLower_eq_nil] at hlow
    rw [hlow] at hname
    exact absurd hname.long (by decide)
  · refine hname.comma ((mem_toLower_iff (by decide)).mp ?_)
    rw [hlow]
    exact (mem_toLower_iff (by decide)).mpr hc

/-! ## PART -/

/-- The line `PART` announces. -/
def partLine (c : Cli) (a1 text : Str) : Str := str ":" ++ hostPrefix c ++ str " PART " ++ a1 ++ text

/-- What follows the list on the line of `PART`. -/
def partText (ar : List Str) : Str := ((ar[2]?).map fun a2 => str " :" ++ a2).getD []

/-- The lines for one item of `PART`. -/
def partMail (s : Server) (x : Ptr) (c : Cli) (a1 text item : Str) : Mail :=
  if s.getCh item = none then [(x, str "403 " ++ item ++ str " :No such channel")]
  else
    match s.chs[item]? with
    | some ch =>
      if x ∈ ch.clis then bcast ch (partLine c a1 text)
      else [(x, str "442 " ++ item ++ str " :You're not on that channel")]
    | none => []

/-- The lines of `PART`. -/
def partMails (s : Server) (x : Ptr) (c : Cli) (a1 text : Str) : Mail :=
  (splitArgToSubargs a1).flatMap (partMail s x c a1 text)

/-- The channels after `PART`. -/
def partDone (s : Server) (x : Ptr) (a1 : Str) : Server :=
  if On s x a1 then s.updCh a1 fun ch => ch.drop x else s

/-- Items of which the author is on none are only replied to. -/
theorem partLoop_reply (hI : Inv s) (hc : s.cliAt x = some c) :
    ∀ (items : List Str) (mail : Mail),
    (∀ i ∈ items, (s.getCh i ≠ none → i ∈ s.chs) ∧ ¬ On s x i) →
    partLoop x c a1 text items (s.sendAll mail) =
      .ok (s.sendAll (mail ++ items.flatMap (partMail s x c a1 text)))
  | [], mail, _ => by rw [List.flatMap_nil, List.append_nil]; rfl
  | i :: items, mail, h => by
    obtain ⟨hkey, hoff⟩ := h i (by simp)
    have hrest := fun mail => partLoop_reply hI hc items mail fun j hj => h j (by simp [hj])
    unfold partLoop
    show (if (s.sendAll mail).getCh i = none then (s.sendAll mail).prepareResp x _ >>= _ else
      (s.sendAll mail).getCliOnCh c.nick i >>= _) = _
    rw [getCh_sendAll, getCliOnCh_sendAll, List.flatMap_cons, ← List.append_assoc, ← hrest]
    unfold partMail
    by_cases hget : s.getCh i = none
    · rw [if_pos hget, if_pos hget, reply_sendAll hI hc]
      rfl
    · obtain ⟨ch, hch⟩ := mem_chs.mp (hkey hget)
      have hx : x ∉ ch.clis := fun hx => hoff ⟨ch, hch, hx⟩
      rw [if_neg hget, if_neg hget, getCliOnCh_self hI hch hc rfl, hch, if_neg hx]
      show ((s.sendAll mail).prepareResp x _ >>= _) = _
      rw [reply_sendAll hI hc]
      simp only [if_neg hx]
      rfl

/-- The author leaves the channel that the list names. -/
theorem partLoop_leave (hI : Inv s) (hc : s.cliAt x = some c) (hreg : c.registered = true)
    (hch : s.chs[a1]? = some ch) (hx : x ∈ ch.clis) :
    partLoop x c a1 text [a1] s =
      .ok ((s.updCh a1 fun ch => ch.drop x).sendAll (bcast ch (partLine c a1 text))) := by
  have hget : s.getCh a1 = some a1 := getCh_self hI (mem_chs.mpr ⟨ch, hch⟩)
  unfold partLoop
  show (if s.getCh a1 = none then _ else s.getCliOnCh c.nick a1 >>= _) = _
  rw [if_neg (by rw [hget]; simp), getCliOnCh_self hI hch hc rfl, if_pos hx]
  show (if x = NULL then _ else s.prepareRespAuthorIncluding (s.getCh a1) (partLine c a1 text) >>= fun s1 =>
    s1.eraseCliFromCh c.nick a1 >>= partLoop x c a1 text []) = _
  rw [if_neg (ne_null_of_cliAt hI hc), hget, prepareRespAuthorIncluding_ok hI hch]
  show ((s.sendAll _).eraseCliFromCh c.nick a1 >>= _) = _
  rw [eraseCliFromCh_ok (by rw [getCli_sendAll, getCli_self hI hc hreg])
    (by rw [getCh_sendAll, hget]) (by rw [chs_sendAll, hch]), updCh_const hch fun ch => ch.drop x,
    updCh_sendAll]
  rfl

/-- If an item is a channel of the author, then the list is that item. -/
theorem PartSafe.single (hI : Inv s) (h : PartSafe s x a1 (splitArgToSubargs a1)) {i : Str}
    (hi : i ∈ splitArgToSubargs a1) (hon : On s x i) : i = a1 ∧ splitArgToSubargs a1 = [a1] := by
  have hmem : i ∈ s.chs := mem_of_on hon
  have hget : s.getCh i ≠ none := by rw [getCh_self hI hmem]; simp
  have hsplit := split_of_getCh hI ((h i hi hget).2 hon)
  rw [hsplit, List.mem_singleton] at hi
  exact ⟨hi, hsplit⟩

/-- **PART**: a channel of the author that is the whole list is left, everything else is a reply. -/
theorem partLoop_run (hI : Inv s) (hc : s.cliAt x = some c) (hreg : c.registered = true)
    (hsafe : PartSafe s x a1 (splitArgToSubargs a1)) :
    partLoop x c a1 text (splitArgToSubargs a1) s =
      .ok ((partDone s x a1).sendAll (partMails s x c a1 text)) := by
  by_cases hon : On s x a1
  · obtain ⟨ch, hch, hx⟩ := hon
    have hmem : a1 ∈ s.chs := mem_chs.mpr ⟨ch, hch⟩
    have hsplit := split_chName (hI.ch_name a1 hmem)
    have hmail : partMails s x c a1 text = bcast ch (partLine c a1 text) := by
      unfold partMails partMail
      rw [hsplit, List.flatMap_singleton, if_neg (by rw [getCh_self hI hmem]; simp), hch]
      exact if_pos hx
    unfold partDone
    rw [if_pos ⟨ch, hch, hx⟩, hmail, hsplit]
    exact partLoop_leave hI hc hreg hch hx
  · unfold partDone
    rw [if_neg hon]
    refine partLoop_reply hI hc (splitArgToSubargs a1) []
      fun i hi => ⟨fun hget => (hsafe i hi hget).1, fun hi' => hon ?_⟩
    exact (hsafe.single hI hi hi').1 ▸ hi'

theorem execPart_run (hI : Inv s) (hc : s.cliAt x = some c) (hreg : c.registered = true)
    (ha1 : ar[1]? = some a1) (hsafe : PartSafe s x a1 (splitArgToSubargs a1)) :
    s.execPart x ar = .ok ((partDone s x a1).sendAll (partMails s x c a1 (partText ar))) := by
  have hlt := (List.getElem?_eq_some_iff.mp ha1).1
  unfold execPart
  rw [deref_of_cliAt hI hc]
  show (if c.registered = false then _ else if ar.length < 2 then _ else arg ar 1 >>= _) = _
  rw [if_neg (by simp [hreg]), if_neg (by omega), arg_ok ha1]
  show (if 2 < ar.length then arg ar 2 >>= _ else _) = _
  unfold partText
  by_cases h2 : 2 < ar.length
  · obtain ⟨a2, ha2⟩ := exists_arg ar 2 h2
    rw [if_pos h2, arg_ok ha2, ha2]
    exact partLoop_run hI hc hreg hsafe
  · rw [if_neg h2, List.getElem?_eq_none (by omega)]
    exact partLoop_run hI hc hreg hsafe

/-! ## KICK -/

/-- The line `KICK` announces. -/
def kickLine (c : Cli) (a1 a2 text : Str) : Str :=
  str ":" ++ hostPrefix c ++ str " KICK " ++ a1 ++ str " " ++ a2 ++ text

/-- What follows the targets on the line of `KICK`. -/
def kickText (ar : List Str) : Str := ((ar[3]?).map fun a3 => str " :" ++ a3).getD []

/-- The channel after the targets that are on it have left; `who` answers to a nick. -/
def kickCh (who : Str → Ptr) (ch : Ch) : List Str → Ch
  | [] => ch
  | target :: targets =>
    kickCh who (if who target ∈ ch.clis then ch.drop (who target) else ch) targets

/-- The lines for the targets on one channel. -/
def kickMail (who : Str → Ptr) (x : Ptr) (k line : Str) (ch : Ch) : List Str → Mail
  | [] => []
  | target :: targets =>
    if who target ∈ ch.clis then
      bcast ch line ++ kickMail who x k line (ch.drop (who target)) targets
    else
      (x, str "441 " ++ target ++ str " " ++ k ++ str " :They aren't on that channel") ::
        kickMail who x k line ch targets

/-- The lines for one channel of `KICK`. -/
def kickItem (s : Server) (x : Ptr) (line : Str) (targets : List Str) (item : Str) : Mail :=
  if s.getCh item = none then [(x, str "403 " ++ item ++ str " :No such channel")]
  else
    match s.chs[item]? with
    | some ch =>
      if x ∉ ch.clis then [(x, str "442 " ++ item ++ str " :You're not on that channel")]
      else if x ∉ ch.adms then [(x, str "482 " ++ item ++ str " :You're not channel operator")]
      else kickMail s.getCli x item line ch targets
    | none => []

/-- The lines of `KICK`. -/
def kickMails (s : Server) (x : Ptr) (c : Cli) (a1 a2 text : Str) : Mail :=
  (splitArgToSubargs a1).flatMap
    (kickItem s x (kickLine c a1 a2 text) (splitArgToSubargs a2))

/-- The channels after `KICK`. -/
def kickDone (s : Server) (x : Ptr) (a1 : Str) (targets : List Str) : Server :=
  if Op s x a1 then s.updCh a1 fun ch => kickCh s.getCli ch targets else s

theorem kickCh_eq_self {who : Str → Ptr} (h : ∀ t ∈ targets, who t ∉ ch.clis) :
    kickCh who ch targets = ch := by
  induction targets with
  | nil => rfl
  | cons t targets ih =>
    unfold kickCh
    rw [if_neg (h t (by simp))]
    exact ih fun u hu => h u (by simp [hu])

/-- Members and operators after some have been kicked are among those before. -/
theorem kickCh_sub (who : Str → Ptr) : ∀ (targets : List Str) (ch : Ch),
    (∀ q ∈ ch.adms, q ∈ ch.clis) → (∀ q ∈ (kickCh who ch targets).clis, q ∈ ch.clis) ∧
      ∀ q ∈ (kickCh who ch targets).adms, q ∈ (kickCh who ch targets).clis
  | [], _, hadm => ⟨fun _ h => h, hadm⟩
  | t :: targets, ch, hadm => by
    unfold kickCh
    split
    · obtain ⟨hsub, hop⟩ := kickCh_sub who targets (ch.drop (who t)) (adms_drop_subset hadm)
      refine ⟨fun q hq => ?_, hop⟩
      have hq := hsub q hq
      rw [clis_drop, mem_erase_iff] at hq
      exact hq.2
    · exact kickCh_sub who targets ch hadm

theorem kickTargets_run (line : Str) : ∀ (targets : List Str) (s : Server) (ch : Ch) (mail : Mail),
    Inv s → s.cliAt x = some c → s.chs[k]? = some ch →
    (s.getCh a1 = some k ∨ ∀ t ∈ targets, s.getCli t ∉ ch.clis) →
    kickTargets x a1 line k targets (s.sendAll mail) =
      .ok ((s.updCh k fun _ => kickCh s.getCli ch targets).sendAll
        (mail ++ kickMail s.getCli x k line ch targets))
  | [], s, ch, mail, _, _, hch, _ => by
    rw [kickCh, kickMail, List.append_nil, updCh_self hch]
    rfl
  | t :: targets, s, ch, mail, hI, hc, hch, hsafe => by
    unfold kickTargets kickCh kickMail
    rw [getCliOnCh_sendAll, getCliOnCh_eq hI hch]
    by_cases ht : s.getCli t ∈ ch.clis
    · have hget1 : s.getCh a1 = some k := by
        rcases hsafe with h | h
        · exact h
        · exact absurd ht (h t (by simp))
      have hne : s.getCli t ≠ NULL := by
        obtain ⟨d, -, hd, -⟩ := member_live hI hch ht
        exact ne_null_of_cliAt hI hd
      have hgetk : s.getCh k = some k := getCh_self hI (mem_chs.mpr ⟨ch, hch⟩)
      have hI' : Inv (s.updCh k fun _ => ch.drop (s.getCli t)) := by
        refine inv_updCh hI hch (fun p hp => ?_) (adms_drop_subset (hI.adm k ch hch))
        rw [clis_drop, mem_erase_iff] at hp
        exact .inl hp.2
      have hch' : (s.updCh k fun _ => ch.drop (s.getCli t)).chs[k]? = some (ch.drop (s.getCli t)) := by
        rw [getElem?_chs_put hch, if_pos rfl]
      have hrest := kickTargets_run line targets (s.updCh k fun _ => ch.drop (s.getCli t))
        (ch.drop (s.getCli t)) (mail ++ bcast ch line) hI' hc hch'
        (.inl (by rw [getCh_updCh, hget1]))
      rw [if_pos ht, if_pos ht, if_pos ht]
      show (if s.getCli t = NULL then _ else
        (s.sendAll mail).prepareRespAuthorIncluding ((s.sendAll mail).getCh a1) line >>= fun s1 =>
          s1.eraseCliFromCh t k >>= kickTargets x a1 line k targets) = _
      rw [if_neg hne, getCh_sendAll, hget1, bcast_sendAll hI hch]
      show ((s.sendAll _).eraseCliFromCh t k >>= _) = _
      rw [eraseCliFromCh_ok (getCli_sendAll (s := s)) (by rw [getCh_sendAll, hgetk])
        (by rw [chs_sendAll, hch]), updCh_sendAll]
      show kickTargets x a1 line k targets _ = _
      rw [hrest, updCh_updCh, List.append_assoc]
      rfl
    · have hrest := kickTargets_run line targets s ch
        (mail ++ [(x, str "441 " ++ t ++ str " " ++ k ++ str " :They aren't on that channel")]) hI hc hch
        (hsafe.imp_right fun h u hu => h u (by simp [hu]))
      rw [if_neg ht, if_neg ht, if_neg ht]
      show ((s.sendAll mail).prepareResp x _ >>= _) = _
      rw [reply_sendAll hI hc]
      show kickTargets x a1 line k targets _ = _
      rw [hrest, List.append_assoc]
      rfl

/-- If a channel of the list has the author as operator and a target on it, the list is that channel. -/
theorem KickSafe.single (hI : Inv s) (h : KickSafe s x a1 targets (splitArgToSubargs a1)) {i : Str}
    (hi : i ∈ splitArgToSubargs a1) (hch : s.chs[i]? = some ch) (hop : x ∈ ch.adms) :
    s.getCh a1 = some i ∨ ∀ t ∈ targets, s.getCli t ∉ ch.clis := by
  have hmem : i ∈ s.chs := mem_chs.mpr ⟨ch, hch⟩
  have hget : s.getCh i ≠ none := by rw [getCh_self hI hmem]; simp
  by_cases h1 : s.getCh a1 = none
  · right
    intro t ht hm
    obtain ⟨d, -, hd, -⟩ := member_live hI hch hm
    obtain ⟨d', hd', hn⟩ := getCli_ne_null hI (ne_null_of_cliAt hI hd)
    exact (h i hi hget).2 ⟨ch, hch, hop⟩ h1 t ht ⟨ch, _, d', hch, hm, hd', hn⟩
  · left
    rw [split_of_getCh hI h1, List.mem_singleton] at hi
    rw [← hi, getCh_self hI hmem]

/-- One channel of the list. -/
theorem kickLoop_cons (hI : Inv s) (hc : s.cliAt x = some c) (line : Str) {i : Str}
    (hkey : s.getCh i ≠ none → i ∈ s.chs)
    (hsafe : ∀ ch, s.chs[i]? = some ch → x ∈ ch.adms →
      s.getCh a1 = some i ∨ ∀ t ∈ targets, s.getCli t ∉ ch.clis) (items : List Str) (mail : Mail) :
    kickLoop x c a1 line targets (i :: items) (s.sendAll mail) =
      kickLoop x c a1 line targets items
        ((kickDone s x i targets).sendAll (mail ++ kickItem s x line targets i)) := by
  -- a channel that is only replied to
  have hreply : ∀ m, ((s.sendAll mail).prepareResp x m >>= kickLoop x c a1 line targets items) =
      kickLoop x c a1 line targets items (s.sendAll (mail ++ [(x, m)])) := fun m => by
    rw [reply_sendAll hI hc]
    rfl
  rw [kickLoop]
  show (if (s.sendAll mail).getCh i = none then (s.sendAll mail).prepareResp x _ >>= _ else
    (s.sendAll mail).getCliOnCh c.nick i >>= _) = _
  rw [getCh_sendAll, getCliOnCh_sendAll]
  unfold kickItem kickDone
  by_cases hget : s.getCh i = none
  · have hop : ¬ Op s x i := by
      rintro ⟨ch, hch, -⟩
      rw [getCh_self hI (mem_chs.mpr ⟨ch, hch⟩)] at hget
      cases hget
    rw [if_pos hget, if_pos hget, if_neg hop]
    exact hreply _
  · obtain ⟨ch, hch⟩ := mem_chs.mp (hkey hget)
    rw [if_neg hget, if_neg hget, getCliOnCh_self hI hch hc rfl, hch]
    simp only [op_iff hch]
    by_cases hx : x ∈ ch.clis
    · by_cases hop : x ∈ ch.adms
      · rw [if_neg (not_not.mpr hx), if_neg (not_not.mpr hop), if_pos hop, if_pos hx]
        show (if x = NULL then _ else (s.sendAll mail).getAdmOnCh c.nick i >>= _) = _
        rw [if_neg (ne_null_of_cliAt hI hc), getAdmOnCh_sendAll, getAdmOnCh_self hI hch hc rfl,
          if_pos hop]
        show (if x = NULL then _ else kickTargets x a1 line i targets (s.sendAll mail) >>= _) = _
        rw [if_neg (ne_null_of_cliAt hI hc),
          kickTargets_run line targets s ch mail hI hc hch (hsafe ch hch hop), updCh_const hch
            fun ch => kickCh s.getCli ch targets]
        rfl
      · rw [if_neg (not_not.mpr hx), if_pos hop, if_neg hop, if_pos hx]
        show (if x = NULL then _ else (s.sendAll mail).getAdmOnCh c.nick i >>= _) = _
        rw [if_neg (ne_null_of_cliAt hI hc), getAdmOnCh_sendAll, getAdmOnCh_self hI hch hc rfl,
          if_neg hop]
        exact hreply _
    · have hop : x ∉ ch.adms := fun hop => hx (hI.adm i ch hch x hop)
      rw [if_pos hx, if_neg hop, if_neg hx]
      exact hreply _

/-- **KICK**: at most the channel that is the whole list changes. -/
theorem kickLoop_run (hI : Inv s) (hc : s.cliAt x = some c) (line : Str)
    (hsafe : KickSafe s x a1 targets (splitArgToSubargs a1)) :
    kickLoop x c a1 line targets (splitArgToSubargs a1) s =
      .ok ((kickDone s x a1 targets).sendAll
        ((splitArgToSubargs a1).flatMap (kickItem s x line targets))) := by
  have hsingle : ∀ i ∈ splitArgToSubargs a1, ∀ ch, s.chs[i]? = some ch → x ∈ ch.adms →
      s.getCh a1 = some i ∨ ∀ t ∈ targets, s.getCli t ∉ ch.clis :=
    fun i hi ch hch hop => hsafe.single hI hi hch hop
  by_cases hop : Op s x a1
  · obtain ⟨ch, hch, hx⟩ := hop
    have hmem : a1 ∈ s.chs := mem_chs.mpr ⟨ch, hch⟩
    have hsplit := split_chName (hI.ch_name a1 hmem)
    rw [hsplit] at hsingle ⊢
    have hcons := kickLoop_cons hI hc line (i := a1) (fun _ => hmem)
      (hsingle a1 (by simp)) [] []
    rw [sendAll_nil] at hcons
    rw [hcons, List.flatMap_singleton]
    rfl
  · -- no channel changes
    have hloop : ∀ (items : List Str) (mail : Mail), (∀ i ∈ items, i ∈ splitArgToSubargs a1) →
        kickLoop x c a1 line targets items (s.sendAll mail) =
          .ok (s.sendAll (mail ++ items.flatMap (kickItem s x line targets))) := by
      intro items
      induction items with
      | nil =>
        intro mail _
        rw [List.flatMap_nil, List.append_nil]
        rfl
      | cons i items ih =>
        intro mail hitems
        have hi := hitems i (by simp)
        have hsame : kickDone s x i targets = s := by
          unfold kickDone
          split
          · rename_i hopi
            obtain ⟨ch, hch, hx⟩ := hopi
            rcases hsingle i hi ch hch hx with h | h
            · have hne : s.getCh a1 ≠ none := by rw [h]; simp
              rw [split_of_getCh hI hne, List.mem_singleton] at hi
              exact absurd (hi ▸ ⟨ch, hch, hx⟩) hop
            · rw [updCh_const hch fun ch => kickCh s.getCli ch targets, kickCh_eq_self h,
                updCh_self hch]
          · rfl
        rw [kickLoop_cons hI hc line (fun hget => (hsafe i hi hget).1) (hsingle i hi), hsame,
          ih _ fun j hj => hitems j (by simp [hj]), List.flatMap_cons, List.append_assoc]
    unfold kickDone
    rw [if_neg hop]
    exact hloop _ [] fun _ h => h

theorem execKick_run (hI : Inv s) (hc : s.cliAt x = some c) (hreg : c.registered = true)
    (ha1 : ar[1]? = some a1) (ha2 : ar[2]? = some a2)
    (hsafe : KickSafe s x a1 (splitArgToSubargs a2) (splitArgToSubargs a1)) :
    s.execKick x ar = .ok ((kickDone s x a1 (splitArgToSubargs a2)).sendAll
      (kickMails s x c a1 a2 (kickText ar))) := by
  have hlt := (List.getElem?_eq_some_iff.mp ha2).1
  unfold execKick
  rw [deref_of_cliAt hI hc]
  show (if c.registered = false then _ else if ar.length < 3 then _ else arg ar 1 >>= _) = _
  rw [if_neg (by simp [hreg]), if_neg (by omega), arg_ok ha1]
  show (arg ar 2 >>= _) = _
  rw [arg_ok ha2]
  show (if 3 < ar.length then arg ar 3 >>= _ else _) = _
  unfold kickText
  by_cases h3 : 3 < ar.length
  · obtain ⟨a3, ha3⟩ := exists_arg ar 3 h3
    rw [if_pos h3, arg_ok ha3, ha3]
    exact kickLoop_run hI hc _ hsafe
  · rw [if_neg h3, List.getElem?_eq_none (by omega)]
    exact kickLoop_run hI hc _ hsafe

end FtIrc
