import FtIrc.Meaning.Messaging
import FtIrc.Reach

/-!
# Two spellings of a command

Channels are looked up without regard to case (`getCh`) and then used by the name as it was typed
(`chs[name]`).  `Respelled` relates two commands that differ in the spelling of the name of one
channel, `SameOutcome` says that they do the same, and `RespellOk` is the condition under which they
do: a spelling that is not the key of the channel is harmless only where it is never used as one.
-/

namespace FtIrc

open Std Outcome Server

variable {s t : Server} {x y : Ptr} {ar ar' : List Str} {c : Cli} {a a' n n' m : Str}
  {L R : List Str} {mail mail' : Mail} {l : String} {i : Nat}

/-! ## Two spellings of a command -/

/-- Two spellings of the name of a channel. -/
structure Respelt (s : Server) (n n' : Str) : Prop where
  named : s.getCh n ≠ none
  lower : toLower n' = toLower n

/-- Two comma lists that differ in the spelling of the name of a channel. -/
def RespeltIn (s : Server) (a a' : Str) : Prop :=
  ∃ pre n n' post, a = pre ++ n ++ post ∧ a' = pre ++ n' ++ post ∧ Respelt s n n' ∧
    (pre = [] ∨ ∃ q, pre = q ++ [COMMA]) ∧ (post = [] ∨ ∃ q, post = COMMA :: q)

/-- A command that names a channel, and the same command with that name spelled in another way. -/
inductive Respelled (s : Server) (ar : List Str) : List Str → Prop where
  | list (l : String) (a a' : Str) : l ∈ ["JOIN", "PART", "KICK", "PRIVMSG"] → CmdIs ar l →
      ar[1]? = some a → RespeltIn s a a' → Respelled s ar (ar.set 1 a')
  | name (l : String) (n n' : Str) : l ∈ ["TOPIC", "MODE"] → CmdIs ar l →
      ar[1]? = some n → Respelt s n n' → Respelled s ar (ar.set 1 n')
  | invite (n n' : Str) : CmdIs ar "INVITE" →
      ar[2]? = some n → Respelt s n n' → Respelled s ar (ar.set 2 n')

/-- A line has been prepared for the client at `y`. -/
def Heard (s t : Server) (y : Ptr) : Prop :=
  ∃ c d, s.cliAt y = some c ∧ t.cliAt y = some d ∧
    c.hist.prepared.length < d.hist.prepared.length

/-- Both commands succeed, and leave the same channels and lines for the same clients. -/
def SameOutcome (s : Server) (r r' : Except Fault Server) : Prop :=
  ∃ t t', r = .ok t ∧ r' = .ok t' ∧ t.chs = t'.chs ∧ ∀ y, Heard s t y ↔ Heard s t' y

/-! ## When they do the same -/

/-- The list is refused with `407`. -/
def Refused (ar : List Str) : Prop :=
  ∃ a, ar[1]? = some a ∧ tooManyTargets (splitArgToSubargs a) = true

/-- No target of `PRIVMSG` delivers to another client. -/
def Quiet (s : Server) (x : Ptr) (ar : List Str) : Prop :=
  ∀ a, ar[1]? = some a → ∀ target ∈ splitArgToSubargs a, ∀ y, Reaches s x target y → y = x

/-- Both spellings are safe, and if `407` tells them apart, the one that is not refused has no more
effect than the refusal. -/
structure RespellOk (s : Server) (x : Ptr) (ar ar' : List Str) : Prop where
  safe : CmdSafe s x ar
  safe' : CmdSafe s x ar'
  join : CmdIs ar "JOIN" → IsReg s x →
    (Refused ar ↔ Refused ar') ∨ MAX_CHS_PER_USER ≤ s.nbChannels x
  privmsg : CmdIs ar "PRIVMSG" → IsReg s x → 2 < ar.length →
    (Refused ar ↔ Refused ar') ∨ (Quiet s x ar ∧ Quiet s x ar')

/-! ## Spellings -/

theorem getCh_congr (h : toLower n' = toLower n) : s.getCh n' = s.getCh n := by
  unfold getCh
  rw [h]

theorem Respelt.symm (h : Respelt s n n') : Respelt s n' n :=
  ⟨getCh_congr h.lower ▸ h.named, h.lower.symm⟩

/-- The key of the channel. -/
theorem Respelt.key (h : Respelt s n n') : ∃ k ∈ s.chs, toLower n = toLower k := by
  cases hk : s.getCh n with
  | none => exact absurd hk h.named
  | some k =>
    obtain ⟨hm, hlow⟩ := getCh_some hk
    exact ⟨k, hm, hlow.symm⟩

/-- Two spellings that are keys are the same. -/
theorem Respelt.eq_of_mem (hI : Inv s) (h : Respelt s n n') (hn : n ∈ s.chs) (hn' : n' ∈ s.chs) :
    n = n' := hI.ch_inj n hn n' hn' h.lower.symm

theorem badName_congr (h : toLower n' = toLower n) : badName n' = badName n := by
  have hmem : ∀ b : UInt8, b < 65 → (b ∈ n' ↔ b ∈ n) := fun b hb => by
    rw [← mem_toLower_iff (.inl hb), h, mem_toLower_iff (.inl hb)]
  have hback : (92 : UInt8) ∈ n' ↔ (92 : UInt8) ∈ n := by
    rw [← mem_toLower_iff (by decide), h, mem_toLower_iff (by decide)]
  have hlen : n'.length = n.length := by rw [← length_toLower, h, length_toLower]
  have hhead : n'.head? = some HASH ↔ n.head? = some HASH := by
    rw [← head?_toLower_iff (by decide), h, head?_toLower_iff (by decide)]
  have hchars : (∃ b ∈ n', b ∈ str "0\\") ↔ ∃ b ∈ n, b ∈ str "0\\" := by
    have hstr : str "0\\" = [48, 92] := by decide
    simp only [hstr, List.mem_cons, List.not_mem_nil, or_false]
    constructor
    · rintro ⟨b, hb, rfl | rfl⟩
      · exact ⟨48, (hmem 48 (by decide)).mp hb, .inl rfl⟩
      · exact ⟨92, hback.mp hb, .inr rfl⟩
    · rintro ⟨b, hb, rfl | rfl⟩
      · exact ⟨48, (hmem 48 (by decide)).mpr hb, .inl rfl⟩
      · exact ⟨92, hback.mpr hb, .inr rfl⟩
  unfold badName
  rw [decide_eq_decide, hlen, ne_eq, hhead, hchars]

theorem badName_key (h : ChName n) : badName n = false := by
  unfold badName
  rw [decide_eq_false_iff_not]
  push Not
  exact ⟨h.long, h.short, h.hash, h.chars⟩

/-- A name that belongs to a channel has the form of a name. -/
theorem Respelt.chName (hI : Inv s) (h : Respelt s n n') :
    badName n = false ∧ n.head? = some HASH ∧ COMMA ∉ n ∧ n ≠ [] := by
  obtain ⟨k, hk, hlow⟩ := h.key
  have hname := hI.ch_name k hk
  have hhead : n.head? = some HASH := by
    rw [← head?_toLower_iff (by decide), hlow, head?_toLower_iff (by decide)]
    exact hname.hash
  refine ⟨(badName_congr hlow).trans (badName_key hname), hhead, ?_, ?_⟩
  · rw [← mem_toLower_iff (by decide), hlow, mem_toLower_iff (by decide)]
    exact hname.comma
  · rintro rfl
    cases hhead

/-- The items of two comma lists that differ in a spelling. -/
structure Respelling (s : Server) (a a' : Str) (L : List Str) (n n' : Str) (R : List Str) :
    Prop where
  items : splitArgToSubargs a = L ++ n :: R
  items' : splitArgToSubargs a' = L ++ n' :: R
  respelt : Respelt s n n'
  eq : n = n' → a = a'
  hash : HASH ∈ a ∧ HASH ∈ a'

theorem Respelling.symm (h : Respelling s a a' L n n' R) : Respelling s a' a L n' n R :=
  ⟨h.items', h.items, h.respelt.symm, fun he => (h.eq he.symm).symm, h.hash.symm⟩

theorem RespeltIn.respelling (hI : Inv s) (h : RespeltIn s a a') :
    ∃ L n n' R, Respelling s a a' L n n' R := by
  obtain ⟨pre, n, n', post, rfl, rfl, hn, hpre, hpost⟩ := h
  have hitems : ∀ {u v}, Respelt s u v →
      splitArgToSubargs (pre ++ u ++ post) = splitArgToSubargs pre ++ u :: splitArgToSubargs post := by
    intro u v hu
    obtain ⟨-, -, hcomma, hne⟩ := hu.chName hI
    have hitem := splitArgToSubargs_item hne hcomma
    have hright : splitArgToSubargs (u ++ post) = u :: splitArgToSubargs post := by
      rcases hpost with rfl | ⟨q, rfl⟩
      · rw [List.append_nil, hitem]
        rfl
      · have hq : splitArgToSubargs (COMMA :: q) = splitArgToSubargs q :=
          splitArgToSubargs_append [] q
        rw [splitArgToSubargs_append, hitem, hq]
        rfl
    rcases hpre with rfl | ⟨q, rfl⟩
    · exact hright
    · have hq : splitArgToSubargs (q ++ [COMMA]) = splitArgToSubargs q := by
        rw [splitArgToSubargs_append]
        exact List.append_nil _
      rw [List.append_assoc, List.append_assoc, List.singleton_append, splitArgToSubargs_append,
        hright, hq]
  have hhash : ∀ {u v}, Respelt s u v → HASH ∈ pre ++ u ++ post := fun hu => by
    have := List.mem_of_head? (hu.chName hI).2.1
    simp [this]
  exact ⟨_, n, n', _, hitems hn, hitems hn.symm, hn, fun he => by rw [he], hhash hn, hhash hn.symm⟩

/-- If only the second list is refused, its new item is another item of the list. -/
theorem Respelling.mem_of_refused (h : Respelling s a a' L n n' R)
    (hrun : tooManyTargets (splitArgToSubargs a) = false)
    (hstop : tooManyTargets (splitArgToSubargs a') = true) : n ≠ n' ∧ n' ∈ L ++ R := by
  rw [h.items] at hrun
  rw [h.items'] at hstop
  unfold tooManyTargets at hrun hstop
  simp only [decide_eq_false_iff_not, decide_eq_true_eq, not_or, not_not, Nat.not_lt,
    List.nodup_middle, List.nodup_cons, List.length_append, List.length_cons] at hrun hstop
  obtain ⟨⟨hn, hnodup⟩, hlen⟩ := hrun
  have hmem : n' ∈ L ++ R := by
    rcases hstop with hstop | hstop
    · by_contra hno
      exact hstop ⟨hno, hnodup⟩
    · omega
  exact ⟨fun he => hn (he ▸ hmem), hmem⟩

/-! ## Recipients -/

theorem length_inbox : (inbox y mail).length = (mail.map (·.1)).count y := by
  unfold inbox
  rw [List.length_map, List.count, List.countP_map, List.countP_eq_length_filter]
  rfl

/-- Who hears of something depends on the addressees only. -/
theorem heard_congr (h : mail.map (·.1) = mail'.map (·.1)) :
    Heard s (t.sendAll mail) y ↔ Heard s (t.sendAll mail') y := by
  unfold Heard
  rw [cliAt_sendAll, cliAt_sendAll]
  have hlen : (inbox y mail).length = (inbox y mail').length := by
    rw [length_inbox, h, length_inbox]
  cases hd : t.cliAt y with
  | none => simp
  | some d => simp [Cli.receive, hlen]

theorem heard_sendAll :
    Heard s (s.sendAll mail) y ↔ (∃ c, s.cliAt y = some c) ∧ ∃ m, (y, m) ∈ mail := by
  have hpos : 0 < (inbox y mail).length ↔ ∃ m, (y, m) ∈ mail := by
    rw [List.length_pos_iff_exists_mem]
    simp only [mem_inbox]
  unfold Heard
  rw [cliAt_sendAll, ← hpos]
  cases hd : s.cliAt y with
  | none => simp
  | some d => simp [Cli.receive]

theorem sameOutcome_refl {r : Except Fault Server} (h : r = .ok t) : SameOutcome s r r :=
  ⟨t, t, h, h, rfl, fun _ => Iff.rfl⟩

theorem SameOutcome.symm {r r' : Except Fault Server} (h : SameOutcome s r r') :
    SameOutcome s r' r := by
  obtain ⟨t, t', ht, ht', hchs, hheard⟩ := h
  exact ⟨t', t, ht', ht, hchs.symm, fun y => (hheard y).symm⟩

theorem sameOutcome_sendAll (h : mail.map (·.1) = mail'.map (·.1)) :
    SameOutcome s (.ok (t.sendAll mail)) (.ok (t.sendAll mail')) :=
  ⟨_, _, rfl, rfl, by rw [chs_sendAll, chs_sendAll], fun _ => heard_congr h⟩

/-- Two replies to the author are the same outcome. -/
theorem sameOutcome_replies {u : Server} (h : t.prepareResp x m = .ok u) (m' : Str) :
    SameOutcome s (t.prepareResp x m) (t.prepareResp x m') := by
  unfold prepareResp at h ⊢
  cases hd : t.deref x with
  | error e =>
    rw [hd] at h
    cases h
  | ok d =>
    show SameOutcome s (.ok (t.sendAll [(x, m)])) (.ok (t.sendAll [(x, m')]))
    exact sameOutcome_sendAll rfl

/-! ## The commands -/

theorem CmdIs.cons (h : CmdIs ar l) : ∃ rest, ar = str l :: rest := by
  cases ar with
  | nil => cases h
  | cons a0 rest => exact ⟨rest, by rw [Option.some.inj h]⟩

theorem execCmd_join (h : CmdIs ar "JOIN") : s.execCmd x ar = s.execJoin x ar := by
  obtain ⟨rest, rfl⟩ := h.cons
  rfl

theorem execCmd_privmsg (h : CmdIs ar "PRIVMSG") : s.execCmd x ar = s.execPrivmsg x ar := by
  obtain ⟨rest, rfl⟩ := h.cons
  rfl

theorem execCmd_kick (h : CmdIs ar "KICK") : s.execCmd x ar = s.execKick x ar := by
  obtain ⟨rest, rfl⟩ := h.cons
  rfl

theorem execCmd_invite (h : CmdIs ar "INVITE") : s.execCmd x ar = s.execInvite x ar := by
  obtain ⟨rest, rfl⟩ := h.cons
  rfl

/-- A command that names a channel is refused before registration. -/
theorem execCmd_notRegistered (hI : Inv s) (hc : s.cliAt x = some c) (hreg : c.registered = false)
    (hl : l ∈ channelCmds) (hcmd : CmdIs ar l)
    (hmode : l = "MODE" → ∃ a1, ar[1]? = some a1 ∧ a1.head? = some HASH) :
    s.execCmd x ar = s.prepareResp x (errNotRegistered c) := by
  have hd := deref_of_cliAt hI hc
  have hfirst : ∀ (f : Cli → Except Fault Server),
      (s.deref x >>= fun c => if c.registered = false then s.prepareResp x (errNotRegistered c)
        else f c) = s.prepareResp x (errNotRegistered c) := by
    intro f
    rw [hd]
    exact if_pos hreg
  obtain ⟨rest, rfl⟩ := hcmd.cons
  simp only [channelCmds, List.mem_cons, List.not_mem_nil, or_false] at hl
  rcases hl with rfl | rfl | rfl | rfl | rfl | rfl | rfl
  · exact hfirst _
  · exact hfirst _
  · exact hfirst _
  · exact hfirst _
  · exact hfirst _
  · exact hfirst _
  · obtain ⟨a1, ha1, hH⟩ := hmode rfl
    obtain ⟨hlt, -⟩ := List.getElem?_eq_some_iff.mp ha1
    obtain ⟨b, hb, hhead⟩ := first_ok (a := a1) (by rintro rfl; cases hH)
    rw [hhead] at hH
    show (if 1 < (str "MODE" :: rest).length then arg (str "MODE" :: rest) 1 >>= fun a1 =>
      first a1 >>= fun b => if b = HASH then s.execModeCh x (str "MODE" :: rest)
        else s.execModeCli x (str "MODE" :: rest) else _) = _
    rw [if_pos hlt, arg_ok ha1]
    show (first a1 >>= _) = _
    rw [hb]
    show (if b = HASH then _ else _) = _
    rw [if_pos (Option.some.inj hH)]
    exact hfirst _

theorem set_eq_self (h : ar[i]? = some a) : ar.set i a = ar := by
  obtain ⟨hlt, rfl⟩ := List.getElem?_eq_some_iff.mp h
  exact List.set_getElem_self hlt

theorem getElem?_set_arg (h : ar[i]? = some a) : (ar.set i a')[i]? = some a' := by
  rw [List.getElem?_set_self (List.getElem?_eq_some_iff.mp h).1]

theorem cmdIs_set : CmdIs (ar.set (i + 1) a) l ↔ CmdIs ar l := by
  cases ar with
  | nil => exact Iff.rfl
  | cons a0 rest => exact Iff.rfl

theorem RespeltIn.symm (h : RespeltIn s a a') : RespeltIn s a' a := by
  obtain ⟨pre, n, n', post, ha, ha', hn, hpre, hpost⟩ := h
  exact ⟨pre, n', n, post, ha', ha, hn.symm, hpre, hpost⟩

theorem Respelled.symm (h : Respelled s ar ar') : Respelled s ar' ar := by
  have hback : ∀ {i a a'}, ar[i]? = some a → ar = (ar.set i a').set i a := fun ha => by
    rw [List.set_set, set_eq_self ha]
  cases h with
  | list l a a' hl hcmd ha h =>
    have hsym := Respelled.list l a' a hl (cmdIs_set.mpr hcmd) (getElem?_set_arg ha) h.symm
    rwa [← hback ha] at hsym
  | name l n n' hl hcmd hn h =>
    have hsym := Respelled.name l n' n hl (cmdIs_set.mpr hcmd) (getElem?_set_arg hn) h.symm
    rwa [← hback hn] at hsym
  | invite n n' hcmd hn h =>
    have hsym := Respelled.invite n' n (cmdIs_set.mpr hcmd) (getElem?_set_arg hn) h.symm
    rwa [← hback hn] at hsym

/-- The command is one that names channels; the name given to `MODE` begins as names do. -/
theorem Respelled.cmd (hI : Inv s) (h : Respelled s ar ar') :
    ∃ l ∈ channelCmds, CmdIs ar l ∧ (CmdIs ar "MODE" → ∃ a1, ar[1]? = some a1 ∧
      a1.head? = some HASH) := by
  cases h with
  | list l a a' hl hcmd ha h =>
    refine ⟨l, ?_, hcmd, fun hm => ?_⟩
    · simp only [List.mem_cons, List.not_mem_nil, or_false] at hl
      rcases hl with rfl | rfl | rfl | rfl <;> simp [channelCmds]
    · have heq := hcmd.unique hm
      simp only [List.mem_cons, List.not_mem_nil, or_false] at hl
      rcases hl with rfl | rfl | rfl | rfl <;> exact absurd heq (by decide)
  | name l n n' hl hcmd hn h =>
    refine ⟨l, ?_, hcmd, fun _ => ⟨n, hn, (h.chName hI).2.1⟩⟩
    simp only [List.mem_cons, List.not_mem_nil, or_false] at hl
    rcases hl with rfl | rfl <;> simp [channelCmds]
  | invite n n' hcmd hn h =>
    exact ⟨"INVITE", by simp [channelCmds], hcmd, fun hm => absurd (hcmd.unique hm) (by decide)⟩

/-- A respelled command succeeds exactly if it is safe. -/
theorem Respelled.done_iff (hI : Inv s) (hc : s.cliAt x = some c) (h : Respelled s ar ar') :
    (∃ t, s.execCmd x ar = .ok t) ↔ CmdSafe s x ar := by
  obtain ⟨-, -, -, hmode⟩ := h.cmd hI
  have hmid : Mid s x ar c s := .refl hI hc
  have hspec := execCmd_spec hmid fun hm a1 ha1 => by
    obtain ⟨b, hb, hH⟩ := hmode hm
    rw [hb] at ha1
    cases ha1
    rintro rfl
    cases hH
  rw [← hspec.done_iff]
  refine ⟨fun ⟨t, ht⟩ => ⟨t, ht, (hspec.of_ok ht).2⟩, fun ⟨t, ht, _⟩ => ⟨t, ht⟩⟩

end FtIrc
