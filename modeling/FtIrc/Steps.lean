import FtIrc.Effect

/-!
# What every command preserves

One elementary change keeps the invariant (`Effect.inv`), leaves every record what it was up to
what its author asked for and the lines appended to it (`Effect.later`), and stores no CRLF
(`Effect.tidy`); so does a whole command (`Steps.inv`, `Steps.later`, `Steps.tidy`).
-/

namespace FtIrc

open Std

namespace Server

variable {s : Server} {p q x y : Ptr} {c c' d : Cli} {k k' n : Str} {ch ch' : Ch}

/-! ## Writing one record -/

theorem updCli_const (hI : Inv s) (hc : s.cliAt p = some c) (f : Cli → Cli) :
    s.updCli p f = s.updCli p fun _ => f c := by
  have hmap : (s.updCli p f).clis = (s.updCli p fun _ => f c).clis := by
    refine ExtTreeMap.ext_getElem? fun fd => ?_
    rw [getElem?_clis_updCli, getElem?_clis_updCli]
    cases hd : s.clis[fd]? with
    | none => rfl
    | some d =>
      simp only [Option.map_some, Option.some.injEq]
      split
      · rename_i h
        obtain ⟨hcm, hcp⟩ := cliAt_mem hc
        rw [hI.addr_inj d (mem_clients.mpr ⟨fd, hd⟩) c hcm (h.trans hcp.symm)]
      · rfl
  show { s with clis := (s.updCli p f).clis } = { s with clis := (s.updCli p fun _ => f c).clis }
  rw [hmap]

theorem cliAt_put (hc : s.cliAt p = some c) (haddr : c'.addr = c.addr) :
    (s.updCli p fun _ => c').cliAt q = if q = p then some c' else s.cliAt q := by
  have hp := (cliAt_mem hc).2
  rw [cliAt_updCli_of_mem fun d _ hd => by rw [haddr, hp, hd]]
  split
  · rename_i h
    rw [h, hc, Option.map_some]
  · rfl

theorem mem_clients_put (hc : s.cliAt p = some c) :
    d ∈ (s.updCli p fun _ => c').clients ↔ d = c' ∨ (d ∈ s.clients ∧ d.addr ≠ p) := by
  obtain ⟨hcm, hcp⟩ := cliAt_mem hc
  rw [clients_updCli, List.mem_map]
  constructor
  · rintro ⟨e, he, rfl⟩
    split
    · exact .inl rfl
    · rename_i h
      exact .inr ⟨he, h⟩
  · rintro (rfl | ⟨hd, hne⟩)
    · exact ⟨c, hcm, if_pos hcp⟩
    · exact ⟨d, hd, if_neg hne⟩

theorem getCli_put (hI : Inv s) (hc : s.cliAt p = some c) (haddr : c'.addr = c.addr)
    (hn : c'.nick = c.nick) : (s.updCli p fun _ => c').getCli n = s.getCli n := by
  obtain ⟨hcm, hcp⟩ := cliAt_mem hc
  refine getCli_updCli_of_mem (fun d hd hdp => ?_) n
  rw [hI.addr_inj d hd c hcm (hdp.trans hcp.symm)]
  exact ⟨haddr, hn⟩

/-! ## Writing one channel -/

theorem updCh_const (hch : s.chs[k]? = some ch) (g : Ch → Ch) :
    s.updCh k g = s.updCh k fun _ => g ch := by
  have hmap : (s.updCh k g).chs = (s.updCh k fun _ => g ch).chs := by
    refine ExtTreeMap.ext_getElem? fun k' => ?_
    rw [getElem?_chs_updCh, getElem?_chs_updCh]
    split
    · rename_i h
      rw [h, hch]
      rfl
    · rfl
  show { s with chs := (s.updCh k g).chs } = { s with chs := (s.updCh k fun _ => g ch).chs }
  rw [hmap]

theorem getElem?_chs_put (hch : s.chs[k]? = some ch) :
    (s.updCh k fun _ => ch').chs[k']? = if k' = k then some ch' else s.chs[k']? := by
  rw [getElem?_chs_updCh]
  split
  · rename_i h
    rw [h, hch]
    rfl
  · rfl

theorem getElem?_chs_insert : (s.chs.insert k ch)[k']? = if k' = k then some ch else s.chs[k']? := by
  rw [ExtTreeMap.getElem?_insert]
  simp only [Std.compare_eq_iff_eq]
  exact if_congr eq_comm rfl rfl

end Server

open Server

variable {s₀ s s' : Server} {x y p : Ptr} {ar : List Str} {c c' : Cli} {k : Str} {ch ch' : Ch}

/-! ## The invariant -/

/-- What a change of a record has to respect. -/
structure Keeps (s : Server) (c c' : Cli) : Prop where
  addr : c'.addr = c.addr
  fd : c'.fd = c.fd
  registered : c.registered = true → c'.registered = true
  nick : c'.nick = c.nick ∨
    (c'.nick.length ≤ 9 ∧ (∀ b ∈ c'.nick, b ∈ nickChars) ∧
      ∀ d ∈ s.clients, toLower c'.nick ≠ toLower d.nick)

theorem CliEffect.keeps (h : CliEffect s₀ x ar s y c c') : Keeps s c c' := by
  cases h with
  | line _ _ m _ => exact ⟨rfl, rfl, id, .inl rfl⟩
  | pass _ a _ _ _ _ =>
    refine ⟨rfl, rfl, fun hr => ?_, .inl rfl⟩
    obtain ⟨-, hn, hu⟩ := Cli.registered_iff.mp hr
    exact Cli.registered_iff.mpr ⟨rfl, hn, hu⟩
  | nick _ a _ _ hne hlen hchars hfresh =>
    refine ⟨rfl, rfl, fun hr => ?_, .inr ⟨hlen, hchars, hfresh⟩⟩
    obtain ⟨hp, -, hu⟩ := Cli.registered_iff.mp hr
    exact Cli.registered_iff.mpr ⟨hp, hne, hu⟩
  | user _ a r _ _ _ hu =>
    refine ⟨rfl, rfl, fun hr => ?_, .inl rfl⟩
    exact absurd hu (Cli.registered_iff.mp hr).2.2
  | cap _ b _ => exact ⟨rfl, rfl, id, .inl rfl⟩
  | joined _ k _ => exact ⟨rfl, rfl, id, .inl rfl⟩
  | invited _ _ k _ _ => exact ⟨rfl, rfl, id, .inl rfl⟩

theorem inv_updCli (hI : Inv s) (hc : s.cliAt y = some c) (h : Keeps s c c') :
    Inv (s.updCli y fun _ => c') := by
  obtain ⟨hcm, hcy⟩ := cliAt_mem hc
  have hother : ∀ d ∈ s.clients, d.addr ≠ y → d ≠ c := fun d _ hd hdc => hd (hdc ▸ hcy)
  refine ⟨?addr_ne, ?addr_inj, ?fd_eq, ?nick_inj, ?nick_chars, hI.ch_inj, hI.ch_name, ?member, hI.adm⟩
  case addr_ne =>
    intro d hd
    rcases (mem_clients_put hc).mp hd with rfl | ⟨hd, _⟩
    · rw [h.addr]
      exact hI.addr_ne c hcm
    · exact hI.addr_ne d hd
  case addr_inj =>
    intro d hd e he hde
    rcases (mem_clients_put hc).mp hd with rfl | ⟨hd, hdy⟩ <;>
      rcases (mem_clients_put hc).mp he with rfl | ⟨he, hey⟩
    · rfl
    · exact absurd (by rw [← hde, h.addr, hcy]) hey
    · exact absurd (by rw [hde, h.addr, hcy]) hdy
    · exact hI.addr_inj d hd e he hde
  case fd_eq =>
    intro fd d hd
    rw [getElem?_clis_updCli] at hd
    cases he : s.clis[fd]? with
    | none => rw [he] at hd; cases hd
    | some e =>
      rw [he, Option.map_some, Option.some.injEq] at hd
      split at hd
      · rename_i hey
        have hec := hI.addr_inj e (mem_clients.mpr ⟨fd, he⟩) c hcm (hey.trans hcy.symm)
        rw [← hd, h.fd, ← hec]
        exact hI.fd_eq fd e he
      · rw [← hd]
        exact hI.fd_eq fd e he
  case nick_inj =>
    -- the new nick is the old one, or nobody bore it
    have hnew : ∀ d ∈ s.clients, d.addr ≠ y → d.nick ≠ [] →
        toLower d.nick ≠ toLower c'.nick := by
      intro d hd hdy hne heq
      rcases h.nick with hsame | ⟨-, -, hfresh⟩
      · exact hother d hd hdy (hI.nick_inj d hd c hcm hne (heq.trans (by rw [hsame])))
      · exact hfresh d hd heq.symm
    intro d hd e he hne hde
    rcases (mem_clients_put hc).mp hd with hdc | ⟨hd', hdy⟩ <;>
      rcases (mem_clients_put hc).mp he with hec | ⟨he', hey⟩
    · rw [hdc, hec]
    · rw [hdc] at hne hde
      refine absurd hde.symm (hnew e he' hey fun h0 => hne ?_)
      rw [h0, toLower_nil, toLower_eq_nil] at hde
      exact hde
    · rw [hec] at hde
      exact absurd hde (hnew d hd' hdy hne)
    · exact hI.nick_inj d hd' e he' hne hde
  case nick_chars =>
    intro d hd
    rcases (mem_clients_put hc).mp hd with rfl | ⟨hd, _⟩
    · rcases h.nick with hsame | ⟨hlen, hchars, -⟩
      · rw [hsame]
        exact hI.nick_chars c hcm
      · exact ⟨hlen, hchars⟩
    · exact hI.nick_chars d hd
  case member =>
    intro k ch hch p hp
    obtain ⟨d, hd, hreg⟩ := hI.member k ch hch p hp
    rw [cliAt_put hc h.addr]
    by_cases hpy : p = y
    · rw [hpy, hc] at hd
      cases hd
      exact ⟨c', if_pos hpy, h.registered hreg⟩
    · exact ⟨d, by rw [if_neg hpy, hd], hreg⟩

theorem isReg_updCli (hc : s.cliAt y = some c) (h : Keeps s c c') (hx : IsReg s x) :
    IsReg (s.updCli y fun _ => c') x := by
  obtain ⟨d, hd, hreg⟩ := hx
  unfold IsReg
  rw [cliAt_put hc h.addr]
  by_cases hxy : x = y
  · rw [hxy, hc] at hd
    cases hd
    exact ⟨c', if_pos hxy, h.registered hreg⟩
  · exact ⟨d, by rw [if_neg hxy, hd], hreg⟩

theorem inv_updCh (hI : Inv s) (hch : s.chs[k]? = some ch)
    (hmem : ∀ p ∈ ch'.clis, p ∈ ch.clis ∨ IsReg s p) (hadm : ∀ p ∈ ch'.adms, p ∈ ch'.clis) :
    Inv (s.updCh k fun _ => ch') := by
  refine ⟨hI.addr_ne, hI.addr_inj, hI.fd_eq, hI.nick_inj, hI.nick_chars, ?ch_inj, ?ch_name, ?member,
    ?adm⟩
  case ch_inj =>
    intro j hj j' hj'
    exact hI.ch_inj j ((mem_chs_updCh _).mp hj) j' ((mem_chs_updCh _).mp hj')
  case ch_name =>
    intro j hj
    exact hI.ch_name j ((mem_chs_updCh _).mp hj)
  case member =>
    intro j ch₁ hj p hp
    rw [getElem?_chs_put hch] at hj
    split at hj
    · cases hj
      rcases hmem p hp with hp | hp
      · exact hI.member k ch hch p hp
      · exact hp
    · exact hI.member j ch₁ hj p hp
  case adm =>
    intro j ch₁ hj
    rw [getElem?_chs_put hch] at hj
    split at hj
    · cases hj
      exact hadm
    · exact hI.adm j ch₁ hj

theorem ChEffect.members (hadm : ∀ p ∈ ch.adms, p ∈ ch.clis) (h : ChEffect s₀ x ar s k ch ch') :
    (∀ p ∈ ch'.clis, p ∈ ch.clis ∨ p = x) ∧ ∀ p ∈ ch'.adms, p ∈ ch'.clis := by
  cases h with
  | join _ _ _ _ _ =>
    have hins : ∀ p, p ∈ ch.clis.insert x ↔ x = p ∨ p ∈ ch.clis := fun p => by
      rw [ExtTreeSet.mem_insert, Std.compare_eq_iff_eq]
    refine ⟨fun p hp => ?_, fun p hp => (hins p).mpr (.inr (hadm p hp))⟩
    rcases (hins p).mp hp with h | h
    · exact .inr h.symm
    · exact .inl h
  | leave y _ _ =>
    refine ⟨fun p hp => ?_, adms_drop_subset hadm⟩
    rw [clis_drop] at hp
    exact .inl (mem_erase_iff.mp hp).2
  | topic t _ _ _ => exact ⟨fun p hp => .inl hp, hadm⟩
  | modes p i t l _ _ => exact ⟨fun p hp => .inl hp, hadm⟩
  | addAdm y a val _ _ _ _ _ _ hy =>
    refine ⟨fun p hp => .inl hp, fun p hp => ?_⟩
    rw [ExtTreeSet.mem_insert, Std.compare_eq_iff_eq] at hp
    rcases hp with rfl | hp
    · exact hy
    · exact hadm p hp
  | delAdm y _ _ =>
    exact ⟨fun p hp => .inl hp, fun p hp => hadm p (mem_erase_iff.mp hp).2⟩

theorem inv_newCh (hI : Inv s) (hx : IsReg s x) (hname : ChName k)
    (hfresh : ∀ k' ∈ s.chs, toLower k' ≠ toLower k) :
    Inv { s with chs := s.chs.insert k (Ch.new x) } := by
  have hself : ∀ p, p ∈ (∅ : ExtTreeSet Ptr).insert x → p = x := by
    intro p hp
    rw [ExtTreeSet.mem_insert, Std.compare_eq_iff_eq] at hp
    rcases hp with h | h
    · exact h.symm
    · simp at h
  have hkeys : ∀ j, j ∈ s.chs.insert k (Ch.new x) ↔ k = j ∨ j ∈ s.chs := by
    intro j
    rw [ExtTreeMap.mem_insert, Std.compare_eq_iff_eq]
  refine ⟨hI.addr_ne, hI.addr_inj, hI.fd_eq, hI.nick_inj, hI.nick_chars, ?ch_inj, ?ch_name, ?member,
    ?adm⟩
  case ch_inj =>
    intro j hj j' hj' h
    rcases (hkeys j).mp hj with rfl | hj <;> rcases (hkeys j').mp hj' with rfl | hj'
    · rfl
    · exact absurd h.symm (hfresh j' hj')
    · exact absurd h (hfresh j hj)
    · exact hI.ch_inj j hj j' hj' h
  case ch_name =>
    intro j hj
    rcases (hkeys j).mp hj with rfl | hj
    · exact hname
    · exact hI.ch_name j hj
  case member =>
    intro j ch hj p hp
    rw [getElem?_chs_insert] at hj
    split at hj
    · cases hj
      rw [hself p hp]
      exact hx
    · exact hI.member j ch hj p hp
  case adm =>
    intro j ch hj
    rw [getElem?_chs_insert] at hj
    split at hj
    · cases hj
      exact fun p hp => hp
    · exact hI.adm j ch hj

theorem inv_markToErase (hI : Inv s) (fd : Nat) : Inv (s.markToErase fd) :=
  ⟨hI.addr_ne, hI.addr_inj, hI.fd_eq, hI.nick_inj, hI.nick_chars, hI.ch_inj, hI.ch_name, hI.member,
    hI.adm⟩

theorem Effect.inv (hI : Inv s) (hx : IsReg s₀ x → IsReg s x) (h : Effect s₀ x ar s s') :
    Inv s' ∧ (IsReg s₀ x → IsReg s' x) := by
  cases h with
  | cli y c c' hc heff =>
    exact ⟨inv_updCli hI hc heff.keeps, fun h0 => isReg_updCli hc heff.keeps (hx h0)⟩
  | ch k ch ch' hreg hch heff =>
    obtain ⟨hmem, hadm⟩ := heff.members (hI.adm k ch hch)
    refine ⟨inv_updCh hI hch (fun p hp => ?_) hadm, hx⟩
    rcases hmem p hp with h | rfl
    · exact .inl h
    · exact .inr (hx hreg)
  | newCh k hreg _ _ hname _ hfresh => exact ⟨inv_newCh hI (hx hreg) hname hfresh, hx⟩
  | mark c _ _ => exact ⟨inv_markToErase hI c.fd, hx⟩

/-- **A command keeps the invariant**, and its author stays registered. -/
theorem Steps.inv (hI : Inv s₀) (h : Steps s₀ x ar s) : Inv s ∧ (IsReg s₀ x → IsReg s x) := by
  induction h with
  | refl => exact ⟨hI, id⟩
  | tail _ heff ih => exact heff.inv ih.1 ih.2

/-! ## Stored strings -/

theorem Tidy.updCli (hT : Tidy s) (hc : s.cliAt y = some c)
    (h : CrlfFree c'.nick ∧ CrlfFree c'.uName ∧ CrlfFree c'.rName ∧ CrlfFree c'.host) :
    Tidy (s.updCli y fun _ => c') := by
  refine ⟨fun d hd => ?_, hT.key, hT.topic⟩
  rcases (mem_clients_put hc).mp hd with rfl | ⟨hd, _⟩
  · exact h
  · exact hT.cli d hd

theorem Tidy.updCh (hT : Tidy s) (hch : s.chs[k]? = some ch) (h : CrlfFree ch'.topic) :
    Tidy (s.updCh k fun _ => ch') := by
  refine ⟨hT.cli, fun j hj => hT.key j ((mem_chs_updCh _).mp hj), fun j ch₁ hj => ?_⟩
  rw [getElem?_chs_put hch] at hj
  split at hj
  · cases hj
    exact h
  · exact hT.topic j ch₁ hj

theorem tidyArgs_get {n : Nat} {a : Str} (hA : TidyArgs ar) (ha : ar[n]? = some a) : CrlfFree a :=
  hA a (List.mem_of_getElem? ha)

theorem Effect.tidy (hT : Tidy s) (hA : TidyArgs ar) (h : Effect s₀ x ar s s') : Tidy s' := by
  cases h with
  | cli y c c' hc heff =>
    obtain ⟨hn, hu, hr, hh⟩ := hT.cli c (cliAt_mem hc).1
    refine hT.updCli hc ?_
    cases heff with
    | nick _ a _ ha _ _ _ _ => exact ⟨tidyArgs_get hA ha, hu, hr, hh⟩
    | user _ a r _ ha hr' _ => exact ⟨hn, tidyArgs_get hA ha, tidyArgs_get hA hr', hh⟩
    | _ => exact ⟨hn, hu, hr, hh⟩
  | ch k ch ch' _ hch heff =>
    have htop := hT.topic k ch hch
    refine hT.updCh hch ?_
    cases heff with
    | leave y _ _ => rw [topic_drop]; exact htop
    | topic t _ _ ht =>
      rcases ht with rfl | ht
      · exact crlfFree_nil
      · exact hA t ht
    | _ => exact htop
  | newCh k _ _ _ _ hk _ =>
    obtain ⟨a, ha, hk⟩ := hk
    refine ⟨hT.cli, fun j hj => ?_, fun j ch hj => ?_⟩
    · rw [ExtTreeMap.mem_insert, Std.compare_eq_iff_eq] at hj
      rcases hj with rfl | hj
      · exact (tidyArgs_get hA ha).sub (splitArgToSubargs_part hk).2
      · exact hT.key j hj
    · rw [getElem?_chs_insert] at hj
      split at hj
      · cases hj
        exact crlfFree_nil
      · exact hT.topic j ch hj
  | mark c _ _ => exact ⟨hT.cli, hT.key, hT.topic⟩

/-- A command stores no CRLF. -/
theorem Steps.tidy (hT : Tidy s₀) (hA : TidyArgs ar) (h : Steps s₀ x ar s) : Tidy s := by
  induction h with
  | refl => exact hT
  | tail _ heff ih => exact heff.tidy ih hA

/-! ## The records -/

/-- What the record `c` of `y` can become while `x` executes `ar`. -/
structure Later (s₀ : Server) (x : Ptr) (ar : List Str) (y : Ptr) (c c' : Cli) : Prop where
  addr : c'.addr = c.addr
  fd : c'.fd = c.fd
  host : c'.host = c.host
  bufRecv : c'.bufRecv = c.bufRecv
  accepted : c'.hist.accepted = c.hist.accepted
  cmds : c'.hist.cmds = c.hist.cmds
  nick : c'.nick = c.nick ∨ (y = x ∧ CmdIs ar "NICK")
  user : (c'.uName = c.uName ∧ c'.rName = c.rName) ∨ (y = x ∧ CmdIs ar "USER")
  passOk : c'.passOk = c.passOk ∨
    (y = x ∧ CmdIs ar "PASS" ∧ c.passOk = false ∧ ∃ a, ar[1]? = some a ∧ a ≠ [])
  invits : ∀ k, k ∈ c'.invits → k ∈ c.invits ∨ (CmdIs ar "INVITE" ∧
    ∃ ch, s₀.chs[k]? = some ch ∧ x ∈ ch.clis ∧ (ch.optI = true → x ∈ ch.adms))
  registered : c.registered = true → c'.registered = true
  out : ∃ ms, c'.bufToSend = c.bufToSend ++ frames ms ∧
    c'.hist.prepared = c.hist.prepared ++ ms ∧ ∀ m ∈ ms, Got s₀ x ar y m

theorem Later.of_silent {x y : Ptr} (haddr : c'.addr = c.addr) (hfd : c'.fd = c.fd)
    (hhost : c'.host = c.host) (hrecv : c'.bufRecv = c.bufRecv) (hhist : c'.hist = c.hist)
    (hsend : c'.bufToSend = c.bufToSend)
    (hnick : c'.nick = c.nick ∨ (y = x ∧ CmdIs ar "NICK"))
    (huser : (c'.uName = c.uName ∧ c'.rName = c.rName) ∨ (y = x ∧ CmdIs ar "USER"))
    (hpass : c'.passOk = c.passOk ∨
      (y = x ∧ CmdIs ar "PASS" ∧ c.passOk = false ∧ ∃ a, ar[1]? = some a ∧ a ≠ []))
    (hinv : ∀ k, k ∈ c'.invits → k ∈ c.invits ∨ (CmdIs ar "INVITE" ∧
      ∃ ch, s₀.chs[k]? = some ch ∧ x ∈ ch.clis ∧ (ch.optI = true → x ∈ ch.adms)))
    (hreg : c.registered = true → c'.registered = true) : Later s₀ x ar y c c' :=
  ⟨haddr, hfd, hhost, hrecv, by rw [hhist], by rw [hhist], hnick, huser, hpass, hinv, hreg,
    [], by simp [hsend], by simp [hhist], by simp⟩

theorem CliEffect.later (h : CliEffect s₀ x ar s y c c') : Later s₀ x ar y c c' := by
  have hreg := h.keeps.registered
  cases h with
  | line _ _ m hm =>
    refine ⟨rfl, rfl, rfl, rfl, rfl, rfl, .inl rfl, .inl ⟨rfl, rfl⟩, .inl rfl, fun _ => .inl, id,
      [m], by simp [appendResp, frame], rfl, fun m' hm' => ?_⟩
    rw [List.mem_singleton.mp hm']
    exact hm
  | pass _ a hcmd h0 ha hne =>
    exact .of_silent rfl rfl rfl rfl rfl rfl (.inl rfl) (.inl ⟨rfl, rfl⟩)
      (.inr ⟨rfl, hcmd, h0, a, ha, hne⟩) (fun _ => .inl) hreg
  | nick _ a hcmd _ _ _ _ _ =>
    exact .of_silent rfl rfl rfl rfl rfl rfl (.inr ⟨rfl, hcmd⟩) (.inl ⟨rfl, rfl⟩) (.inl rfl)
      (fun _ => .inl) hreg
  | user _ a r hcmd _ _ _ =>
    exact .of_silent rfl rfl rfl rfl rfl rfl (.inl rfl) (.inr ⟨rfl, hcmd⟩) (.inl rfl)
      (fun _ => .inl) hreg
  | cap _ b _ =>
    exact .of_silent rfl rfl rfl rfl rfl rfl (.inl rfl) (.inl ⟨rfl, rfl⟩) (.inl rfl)
      (fun _ => .inl) hreg
  | joined _ k _ =>
    refine .of_silent rfl rfl rfl rfl rfl rfl (.inl rfl) (.inl ⟨rfl, rfl⟩) (.inl rfl)
      (fun j hj => .inl ?_) hreg
    exact ExtTreeSet.mem_of_mem_erase hj
  | invited _ _ k hcmd hch =>
    refine .of_silent rfl rfl rfl rfl rfl rfl (.inl rfl) (.inl ⟨rfl, rfl⟩) (.inl rfl)
      (fun j hj => ?_) hreg
    rw [ExtTreeSet.mem_insert, Std.compare_eq_iff_eq] at hj
    rcases hj with rfl | hj
    · exact .inr ⟨hcmd, hch⟩
    · exact .inl hj

theorem Later.refl (c : Cli) : Later s₀ x ar y c c :=
  .of_silent rfl rfl rfl rfl rfl rfl (.inl rfl) (.inl ⟨rfl, rfl⟩) (.inl rfl) (fun _ => .inl) id

theorem Later.trans {c'' : Cli} (h : Later s₀ x ar y c c') (h' : Later s₀ x ar y c' c'') :
    Later s₀ x ar y c c'' := by
  refine ⟨h'.addr.trans h.addr, h'.fd.trans h.fd, h'.host.trans h.host,
    h'.bufRecv.trans h.bufRecv, h'.accepted.trans h.accepted, h'.cmds.trans h.cmds, ?nick, ?user,
    ?passOk, fun k hk => ?invits, fun hr => h'.registered (h.registered hr), ?out⟩
  case nick =>
    rcases h'.nick with hn' | hn'
    · rcases h.nick with hn | hn
      · exact .inl (hn'.trans hn)
      · exact .inr hn
    · exact .inr hn'
  case user =>
    rcases h'.user with ⟨hu', hr'⟩ | hu'
    · rcases h.user with ⟨hu, hr⟩ | hu
      · exact .inl ⟨hu'.trans hu, hr'.trans hr⟩
      · exact .inr hu
    · exact .inr hu'
  case passOk =>
    rcases h.passOk with hp | hp
    · rcases h'.passOk with hp' | ⟨hy, hcmd, h0, ha⟩
      · exact .inl (hp'.trans hp)
      · exact .inr ⟨hy, hcmd, hp ▸ h0, ha⟩
    · exact .inr hp
  case invits =>
    rcases h'.invits k hk with hk' | hk'
    · exact h.invits k hk'
    · exact .inr hk'
  case out =>
    obtain ⟨ms, hb, hp, hg⟩ := h.out
    obtain ⟨ms', hb', hp', hg'⟩ := h'.out
    refine ⟨ms ++ ms', by rw [hb', hb, frames_append, List.append_assoc],
      by rw [hp', hp, List.append_assoc], fun m hm => ?_⟩
    rcases List.mem_append.mp hm with hm | hm
    · exact hg m hm
    · exact hg' m hm

theorem Effect.later (h : Effect s₀ x ar s s') (y : Ptr) :
    (s.cliAt y = none ∧ s'.cliAt y = none) ∨
      ∃ c c', s.cliAt y = some c ∧ s'.cliAt y = some c' ∧ Later s₀ x ar y c c' := by
  have hsame : s'.cliAt y = s.cliAt y → (s.cliAt y = none ∧ s'.cliAt y = none) ∨
      ∃ c c', s.cliAt y = some c ∧ s'.cliAt y = some c' ∧ Later s₀ x ar y c c' := by
    intro heq
    cases hc : s.cliAt y with
    | none => exact .inl ⟨rfl, by rw [heq, hc]⟩
    | some c => exact .inr ⟨c, c, rfl, by rw [heq, hc], .refl c⟩
  cases h with
  | cli z c c' hc heff =>
    by_cases hy : y = z
    · subst hy
      exact .inr ⟨c, c', hc, by rw [cliAt_put hc heff.keeps.addr, if_pos rfl], heff.later⟩
    · exact hsame (by rw [cliAt_put hc heff.keeps.addr, if_neg hy])
  | ch k ch ch' _ _ _ => exact hsame rfl
  | newCh k _ _ _ _ _ _ => exact hsame rfl
  | mark c _ _ => exact hsame rfl

/-- **What a command leaves of the records**: the same clients are there, each as `Later` says. -/
theorem Steps.later (h : Steps s₀ x ar s) (y : Ptr) :
    (s₀.cliAt y = none ∧ s.cliAt y = none) ∨
      ∃ c c', s₀.cliAt y = some c ∧ s.cliAt y = some c' ∧ Later s₀ x ar y c c' := by
  induction h with
  | refl =>
    cases hc : s₀.cliAt y with
    | none => exact .inl ⟨rfl, rfl⟩
    | some c => exact .inr ⟨c, c, rfl, rfl, .refl c⟩
  | tail _ heff ih =>
    rcases heff.later y with ⟨hn, hn'⟩ | ⟨c, c', hc, hc', hl⟩
    · rcases ih with ⟨h0, _⟩ | ⟨_, d, _, hd, _⟩
      · exact .inl ⟨h0, hn'⟩
      · rw [hd] at hn
        cases hn
    · rcases ih with ⟨_, h0⟩ | ⟨b, d, hb, hd, hl'⟩
      · rw [h0] at hc
        cases hc
      · rw [hd] at hc
        cases hc
        exact .inr ⟨b, c', hb, hc', hl'.trans hl⟩

theorem Steps.later_of (h : Steps s₀ x ar s) (hc : s₀.cliAt y = some c) :
    ∃ c', s.cliAt y = some c' ∧ Later s₀ x ar y c c' := by
  rcases h.later y with ⟨hn, _⟩ | ⟨d, d', hd, hd', hl⟩
  · rw [hn] at hc
    cases hc
  · rw [hd] at hc
    cases hc
    exact ⟨d', hd', hl⟩

theorem Steps.earlier_of (h : Steps s₀ x ar s) (hc : s.cliAt y = some c') :
    ∃ c, s₀.cliAt y = some c ∧ Later s₀ x ar y c c' := by
  rcases h.later y with ⟨_, hn⟩ | ⟨d, d', hd, hd', hl⟩
  · rw [hn] at hc
    cases hc
  · rw [hd'] at hc
    cases hc
    exact ⟨d, hd, hl⟩

/-! ## The rest of the state -/

/-- What no command touches. -/
structure SameServer (s s' : Server) : Prop where
  pass : s'.pass = s.pass
  fdForNewClis : s'.fdForNewClis = s.fdForNewClis
  polls : s'.polls = s.polls
  fds : ∀ fd, fd ∈ s'.clis ↔ fd ∈ s.clis

theorem Effect.sameServer (h : Effect s₀ x ar s s') : SameServer s s' := by
  cases h with
  | cli y c c' _ _ => exact ⟨rfl, rfl, rfl, fun fd => mem_clis_updCli fd⟩
  | ch k ch ch' _ _ _ => exact ⟨rfl, rfl, rfl, fun _ => Iff.rfl⟩
  | newCh k _ _ _ _ _ _ => exact ⟨rfl, rfl, rfl, fun _ => Iff.rfl⟩
  | mark c _ _ => exact ⟨rfl, rfl, rfl, fun _ => Iff.rfl⟩

theorem Steps.sameServer (h : Steps s₀ x ar s) : SameServer s₀ s := by
  induction h with
  | refl => exact ⟨rfl, rfl, rfl, fun _ => Iff.rfl⟩
  | tail _ heff ih =>
    have h' := heff.sameServer
    exact ⟨h'.pass.trans ih.pass, h'.fdForNewClis.trans ih.fdForNewClis, h'.polls.trans ih.polls,
      fun fd => (h'.fds fd).trans (ih.fds fd)⟩

end FtIrc
