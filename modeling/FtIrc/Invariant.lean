import FtIrc.Memory

/-!
# The invariant, and what the lookups return under it

`Inv` collects what the handlers rely on without checking it: addresses identify records, nicks
and channel names are unique up to case, the pointers kept in channels are registered live
clients.  Under it the lookups by name are determined (`getCli_eq`, `getCh_eq`), and the scans of
a channel for the nick of a client are tests of membership (`getCliOnCh_self`, `getAdmOnCh_self`).
-/

namespace FtIrc

open Std

/-- What `execJoin` admits as the name of a channel. -/
structure ChName (k : Str) : Prop where
  long : 1 < k.length
  short : k.length ≤ 200
  hash : k.head? = some HASH
  chars : ∀ b ∈ k, b ∉ str "0\\"
  comma : COMMA ∉ k

/-- The server invariant. -/
structure Inv (s : Server) : Prop where
  addr_ne : ∀ c ∈ s.clients, c.addr ≠ NULL
  addr_inj : ∀ c ∈ s.clients, ∀ d ∈ s.clients, c.addr = d.addr → c = d
  fd_eq : ∀ (fd : Nat) (c : Cli), s.clis[fd]? = some c → c.fd = fd
  nick_inj : ∀ c ∈ s.clients, ∀ d ∈ s.clients, c.nick ≠ [] → toLower c.nick = toLower d.nick → c = d
  nick_chars : ∀ c ∈ s.clients, c.nick.length ≤ 9 ∧ ∀ b ∈ c.nick, b ∈ Server.nickChars
  ch_inj : ∀ k ∈ s.chs, ∀ k' ∈ s.chs, toLower k = toLower k' → k = k'
  ch_name : ∀ k ∈ s.chs, ChName k
  member : ∀ (k : Str) (ch : Ch), s.chs[k]? = some ch → ∀ p ∈ ch.clis,
    ∃ c, s.cliAt p = some c ∧ c.registered = true
  adm : ∀ (k : Str) (ch : Ch), s.chs[k]? = some ch → ∀ p ∈ ch.adms, p ∈ ch.clis

theorem Cli.registered_iff {c : Cli} :
    c.registered = true ↔ c.passOk = true ∧ c.nick ≠ [] ∧ c.uName ≠ [] := by
  simp [Cli.registered, and_assoc]

namespace Server

variable {s : Server} {p x : Ptr} {c : Cli} {k n name : Str} {ch : Ch}

/-! ## Records -/

theorem cliAt_iff_of_inj (hinj : ∀ c ∈ s.clients, ∀ d ∈ s.clients, c.addr = d.addr → c = d) :
    s.cliAt p = some c ↔ c ∈ s.clients ∧ c.addr = p := by
  refine ⟨cliAt_mem, fun ⟨hc, hp⟩ => ?_⟩
  subst hp
  cases h : s.cliAt c.addr with
  | none =>
    unfold cliAt at h
    have := List.find?_eq_none.mp h c hc
    simp at this
  | some d =>
    obtain ⟨hd, haddr⟩ := cliAt_mem h
    rw [hinj d hd c hc haddr]

theorem cliAt_iff (hI : Inv s) : s.cliAt p = some c ↔ c ∈ s.clients ∧ c.addr = p :=
  cliAt_iff_of_inj hI.addr_inj

theorem cliAt_of_mem (hI : Inv s) (hc : c ∈ s.clients) : s.cliAt c.addr = some c :=
  (cliAt_iff hI).mpr ⟨hc, rfl⟩

theorem cliAt_of_clis {fd : Nat} (hI : Inv s) (hc : s.clis[fd]? = some c) : s.cliAt c.addr = some c :=
  cliAt_of_mem hI (mem_clients.mpr ⟨fd, hc⟩)

theorem clis_of_cliAt (hI : Inv s) (hc : s.cliAt p = some c) : s.clis[c.fd]? = some c := by
  obtain ⟨fd, hfd⟩ := mem_clients.mp (cliAt_mem hc).1
  rw [hI.fd_eq fd c hfd]
  exact hfd

theorem ne_null_of_cliAt (hI : Inv s) (h : s.cliAt p = some c) : p ≠ NULL :=
  (cliAt_mem h).2 ▸ hI.addr_ne c (cliAt_mem h).1

theorem deref_of_cliAt (hI : Inv s) (h : s.cliAt p = some c) : s.deref p = .ok c :=
  deref_ok.mpr ⟨ne_null_of_cliAt hI h, h⟩

/-! ## Lookups by name -/

theorem getCh_some (h : s.getCh name = some k) : k ∈ s.chs ∧ toLower k = toLower name :=
  ⟨ExtTreeMap.mem_keys.mp (List.mem_of_find?_eq_some h), by simpa using List.find?_some h⟩

theorem getCh_none_iff : s.getCh name = none ↔ ∀ k ∈ s.chs, toLower k ≠ toLower name := by
  simp [getCh, List.find?_eq_none]

/-- The channel found for a name is the one that bears it up to case. -/
theorem getCh_eq (hI : Inv s) (hk : k ∈ s.chs) (h : toLower k = toLower name) :
    s.getCh name = some k := by
  cases hg : s.getCh name with
  | none => exact absurd h (getCh_none_iff.mp hg k hk)
  | some k' =>
    obtain ⟨hk', h'⟩ := getCh_some hg
    rw [hI.ch_inj k' hk' k hk (h'.trans h.symm)]

theorem getCh_self (hI : Inv s) (hk : k ∈ s.chs) : s.getCh k = some k := getCh_eq hI hk rfl

theorem getCli_ne_null (hI : Inv s) (h : s.getCli n ≠ NULL) :
    ∃ c, s.cliAt (s.getCli n) = some c ∧ toLower c.nick = toLower n := by
  unfold getCli at h ⊢
  cases hf : s.clients.find? fun c => decide (toLower c.nick = toLower n) with
  | none => rw [hf] at h; exact absurd rfl h
  | some c =>
    exact ⟨c, cliAt_of_mem hI (List.mem_of_find?_eq_some hf), by simpa using List.find?_some hf⟩

theorem getCli_null (hI : Inv s) (h : s.getCli n = NULL) (hc : c ∈ s.clients) :
    toLower c.nick ≠ toLower n := by
  intro he
  unfold getCli at h
  cases hf : s.clients.find? fun c => decide (toLower c.nick = toLower n) with
  | none => simpa [he] using List.find?_eq_none.mp hf c hc
  | some d =>
    rw [hf] at h
    exact hI.addr_ne d (List.mem_of_find?_eq_some hf) h

/-- A nonempty nick belongs to one client. -/
theorem getCli_eq (hI : Inv s) (hc : s.cliAt p = some c) (hne : c.nick ≠ [])
    (h : toLower c.nick = toLower n) : s.getCli n = p := by
  obtain ⟨hm, haddr⟩ := cliAt_mem hc
  have hnn : s.getCli n ≠ NULL := fun h0 => getCli_null hI h0 hm h
  obtain ⟨d, hd, hdn⟩ := getCli_ne_null hI hnn
  obtain ⟨hdm, hda⟩ := cliAt_mem hd
  rw [← hda, ← haddr, hI.nick_inj c hm d hdm hne (h.trans hdn.symm)]

/-! ## Scans of a channel -/

theorem derefCh_some (h : s.chs[k]? = some ch) : s.derefCh (some k) = .ok ch := by
  simp [derefCh, h]

theorem chsAt_ok (h : s.chs[k]? = some ch) : s.chsAt k = .ok ch := by
  simp [chsAt, h]

/-- The scan of a set of live clients for a nick finds one that bears it, if there is one. -/
theorem findNick_spec (hI : Inv s) : ∀ ps : List Ptr, (∀ p ∈ ps, ∃ c, s.cliAt p = some c) →
    ∃ r, s.findNick n ps = .ok r ∧
      ((r = NULL ∧ ∀ p ∈ ps, ∀ c, s.cliAt p = some c → toLower c.nick ≠ toLower n) ∨
        (r ∈ ps ∧ ∃ c, s.cliAt r = some c ∧ toLower c.nick = toLower n))
  | [], _ => ⟨NULL, rfl, .inl ⟨rfl, by simp⟩⟩
  | p :: ps, hlive => by
    obtain ⟨c, hc⟩ := hlive p (by simp)
    have hd := deref_of_cliAt hI hc
    obtain ⟨r, hr, hcase⟩ := findNick_spec hI ps fun q hq => hlive q (by simp [hq])
    by_cases hn : toLower c.nick = toLower n
    · refine ⟨p, ?_, .inr ⟨by simp, c, hc, hn⟩⟩
      simp only [findNick, hd]
      exact if_pos hn
    · refine ⟨r, ?_, ?_⟩
      · simp only [findNick, hd]
        show (if toLower c.nick = toLower n then _ else _) = _
        rw [if_neg hn, hr]
      · rcases hcase with ⟨h0, hall⟩ | ⟨hm, hbears⟩
        · refine .inl ⟨h0, fun q hq d hq' => ?_⟩
          rcases List.mem_cons.mp hq with hqp | hq
          · rw [hqp, hc] at hq'
            cases hq'
            exact hn
          · exact hall q hq d hq'
        · exact .inr ⟨by simp [hm], hbears⟩

/-- Scanning a set of members for a nick: the member that bears it, or `NULL`. -/
theorem findNick_members (hI : Inv s) (hch : s.chs[k]? = some ch) {ps : ExtTreeSet Ptr}
    (hps : ∀ p ∈ ps, p ∈ ch.clis) :
    ∃ r, s.findNick n ps.toList = .ok r ∧
      ((r = NULL ∧ ∀ p ∈ ps, ∀ c, s.cliAt p = some c → toLower c.nick ≠ toLower n) ∨
        (r ≠ NULL ∧ r ∈ ps ∧ s.getCli n = r ∧ ∃ c, s.cliAt r = some c ∧
          toLower c.nick = toLower n)) := by
  have hlive : ∀ p ∈ ps.toList, ∃ c, s.cliAt p = some c := by
    intro p hp
    obtain ⟨c, hc, _⟩ := hI.member k ch hch p (hps p (ExtTreeSet.mem_toList.mp hp))
    exact ⟨c, hc⟩
  obtain ⟨r, hr, hcase⟩ := findNick_spec (n := n) hI ps.toList hlive
  refine ⟨r, hr, ?_⟩
  rcases hcase with ⟨h0, hall⟩ | ⟨hm, c, hc, hn⟩
  · exact .inl ⟨h0, fun p hp => hall p (ExtTreeSet.mem_toList.mpr hp)⟩
  · have hm := ExtTreeSet.mem_toList.mp hm
    obtain ⟨c', hc', hreg⟩ := hI.member k ch hch r (hps r hm)
    rw [hc] at hc'
    cases hc'
    exact .inr ⟨ne_null_of_cliAt hI hc, hm,
      getCli_eq hI hc (Cli.registered_iff.mp hreg).2.1 hn, c, hc, hn⟩

theorem getCliOnCh_none (h : s.getCh name = none) : s.getCliOnCh n name = .ok NULL := by
  simp [getCliOnCh, h]

/-- **The exact-case lookup after the case-insensitive test**: a name that is only a key up to
case makes `operator[]` store a null `Ch*`. -/
theorem getCliOnCh_misspelt (h : s.getCh name ≠ none) (hk : name ∉ s.chs) :
    s.getCliOnCh n name = .error .nullChStored := by
  unfold getCliOnCh chsAt
  rw [if_neg h]
  cases hg : s.chs[name]? with
  | none => rfl
  | some ch => exact absurd (mem_chs.mpr ⟨ch, hg⟩) hk

theorem getCliOnCh_key (hI : Inv s) (hch : s.chs[name]? = some ch) :
    s.getCliOnCh n name = s.findNick n ch.clis.toList := by
  unfold getCliOnCh
  rw [if_neg (by rw [getCh_self hI (mem_chs.mpr ⟨ch, hch⟩)]; simp), chsAt_ok hch]
  rfl

theorem getAdmOnCh_key (hI : Inv s) (hch : s.chs[name]? = some ch) :
    s.getAdmOnCh n name = s.findNick n ch.adms.toList := by
  unfold getAdmOnCh
  rw [if_neg (by rw [getCh_self hI (mem_chs.mpr ⟨ch, hch⟩)]; simp), chsAt_ok hch]
  rfl

/-- Scanning a set of members for the nick of a client is the test of membership. -/
theorem findNick_self (hI : Inv s) (hch : s.chs[k]? = some ch) {ps : ExtTreeSet Ptr}
    (hps : ∀ p ∈ ps, p ∈ ch.clis) (hc : s.cliAt x = some c) (hn : n = c.nick) :
    s.findNick n ps.toList = .ok (if x ∈ ps then x else NULL) := by
  subst hn
  obtain ⟨r, hr, ⟨rfl, hall⟩ | ⟨-, hm, -, d, hd, hdn⟩⟩ := findNick_members (n := c.nick) hI hch hps
  · rw [if_neg fun hx => hall x hx c hc rfl]
    exact hr
  · obtain ⟨d', hd', hreg⟩ := hI.member k ch hch r (hps r hm)
    rw [hd] at hd'
    cases hd'
    have heq := hI.nick_inj d (cliAt_mem hd).1 c (cliAt_mem hc).1
      (Cli.registered_iff.mp hreg).2.1 hdn
    have hrx : r = x := by rw [← (cliAt_mem hd).2, ← (cliAt_mem hc).2, heq]
    rw [hr, if_pos (hrx ▸ hm), hrx]

theorem getCliOnCh_self (hI : Inv s) (hch : s.chs[name]? = some ch) (hc : s.cliAt x = some c)
    (hn : n = c.nick) : s.getCliOnCh n name = .ok (if x ∈ ch.clis then x else NULL) := by
  rw [getCliOnCh_key hI hch, findNick_self hI hch (fun _ h => h) hc hn]

theorem getAdmOnCh_self (hI : Inv s) (hch : s.chs[name]? = some ch) (hc : s.cliAt x = some c)
    (hn : n = c.nick) : s.getAdmOnCh n name = .ok (if x ∈ ch.adms then x else NULL) := by
  rw [getAdmOnCh_key hI hch, findNick_self hI hch (hI.adm name ch hch) hc hn]

/-- Scanning a channel for any nick: the member that bears it, which is then the client of that
nick, or `NULL`. -/
theorem getCliOnCh_spec (hI : Inv s) (hch : s.chs[name]? = some ch) :
    ∃ r, s.getCliOnCh n name = .ok r ∧
      ((r = NULL ∧ ∀ p ∈ ch.clis, ∀ c, s.cliAt p = some c → toLower c.nick ≠ toLower n) ∨
        (r ≠ NULL ∧ r ∈ ch.clis ∧ s.getCli n = r ∧ ∃ c, s.cliAt r = some c ∧
          toLower c.nick = toLower n)) := by
  rw [getCliOnCh_key hI hch]
  exact findNick_members hI hch fun _ h => h

theorem getAdmOnCh_spec (hI : Inv s) (hch : s.chs[name]? = some ch) :
    ∃ r, s.getAdmOnCh n name = .ok r ∧
      ((r = NULL ∧ ∀ p ∈ ch.adms, ∀ c, s.cliAt p = some c → toLower c.nick ≠ toLower n) ∨
        (r ≠ NULL ∧ r ∈ ch.adms ∧ s.getCli n = r ∧ ∃ c, s.cliAt r = some c ∧
          toLower c.nick = toLower n)) := by
  rw [getAdmOnCh_key hI hch]
  exact findNick_members hI hch (hI.adm name ch hch)

end Server

end FtIrc
