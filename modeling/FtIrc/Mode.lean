import FtIrc.Channel
import FtIrc.Registration

/-!
# MODE

`execModeOneOoption`, `execModeCh` and `execModeCli` of `Commands.cpp`.
-/

namespace FtIrc.Server

/-- The options of a channel. -/
def modeOpts : List Str :=
  [str "+i", str "-i", str "+t", str "-t", str "+l", str "-l", str "+k", str "-k", str "+o",
    str "-o"]

/-- The options that an empty value does not stop. -/
def modeOptsNoVal : List Str :=
  [str "+i", str "-i", str "+t", str "-t", str "-l", str "-k", str "+o", str "-o"]

/-- The options followed by an argument on the line. -/
def modeOptsArg : List Str := [str "+k", str "+l", str "+o", str "-o"]

/-- The tests that `n` fails as a limit; the second one compares an `unsigned int` with the
largest `unsigned int`. -/
def badLimit (n m : Int) : Prop := n < 0 ∨ UINT_MAX < toUInt32 m

instance (n m : Int) : Decidable (badLimit n m) := by unfold badLimit; infer_instance

/-- The assignments of `execModeOneOoption`. -/
def applyOption (s : Server) (a1 opt val : Str) : Except Fault Server :=
  if opt = str "+i" then s.setCh a1 fun ch => { ch with optI := true }
  else if opt = str "-i" then s.setCh a1 fun ch => { ch with optI := false }
  else if opt = str "+t" then s.setCh a1 fun ch => { ch with optT := true }
  else if opt = str "-t" then s.setCh a1 fun ch => { ch with optT := false }
  else if opt = str "-l" then s.setCh a1 fun ch => { ch with limit := UINT_MAX }
  else if opt = str "+k" then s.setCh a1 fun ch => { ch with pass := val }
  else if opt = str "-k" then s.setCh a1 fun ch => { ch with pass := [] }
  else if opt = str "+l" ∧ 0 ≤ atoi val ∧ toUInt32 (atoi val) ≤ UINT_MAX then
    s.setCh a1 fun ch => { ch with limit := toUInt32 (toInt32 (strtol val)) }
  else if opt = str "+o" then
    s.setCh a1 fun ch => { ch with adms := ch.adms.insert (s.getCli val) }
  else if opt = str "-o" then do
    let p ← s.getAdmOnCh val a1
    if p ≠ NULL then s.setCh a1 fun ch => { ch with adms := ch.adms.erase (s.getCli val) }
    else .ok s
  else .ok s

/-- `execModeOneOoption(opt, val)`. -/
def execModeOneOoption (s : Server) (cli : Ptr) (ar : List Str) (opt val : Str) :
    Except Fault Server := do
  let c ← s.deref cli
  if opt ∉ modeOpts then
    s.prepareResp cli (str "472 " ++ opt ++ str " :is unknown mode char to me for " ++ val)
  else if val = [] ∧ opt ∉ modeOptsNoVal then
    s.prepareResp cli (str "461 MODE :Not enough parameters")
  else do
    let a1 ← arg ar 1
    let keySet ←
      if opt = str "+k" then do
        let ch ← s.derefCh (s.getCh a1)
        .ok (decide (ch.pass ≠ []))
      else .ok false
    if keySet then
      s.prepareResp cli (str "467 " ++ a1 ++ str " :Channel key already set")
    else do
      let bad ←
        if opt = str "+l" then do
          let a3 ← arg ar 3
          .ok (decide (badLimit (atoi a3) (atoi a3)))
        else .ok false
      if bad then
        s.prepareResp cli
          (str "472 " ++ c.nick ++ str " " ++ opt ++ str " :is unknown mode char to me")
      else do
        let absent ←
          if opt = str "+o" ∨ opt = str "-o" then do
            let p ← s.getCliOnCh val a1
            .ok (decide (p = NULL))
          else .ok false
        if absent then
          s.prepareResp cli
            (str "441 " ++ val ++ str " " ++ a1 ++ str " :They aren't on that channel!!!")
        else do
          let bad ←
            if opt = str "+l" then do
              let a3 ← arg ar 3
              .ok (decide (badLimit (atoi val) (atoi a3)))
            else .ok false
          if bad then
            s.prepareResp cli
              (str "? " ++ opt ++ str " " ++ val ++ str " MODE :bad option value")
          else do
            let s ← s.applyOption a1 opt val
            s.prepareRespAuthorIncluding (s.getCh a1)
              (str ":" ++ hostPrefix c ++ str " MODE " ++ a1 ++ str " " ++ opt)

/-- The loop over the items of `+o` and `-o`. -/
def modeVals (cli : Ptr) (ar : List Str) (opt : Str) : List Str → Server → Except Fault Server
  | [], s => .ok s
  | val :: vals, s => do
    let s ← s.execModeOneOoption cli ar opt val
    modeVals cli ar opt vals s

/-- The loop of `execModeCh` from position `i`; `ar.length` rounds are enough.  The value of an
option is `ar[3]`, wherever the option stands. -/
def modeLoop (cli : Ptr) (ar : List Str) : Nat → Nat → Server → Except Fault Server
  | 0, _, s => .ok s
  | n + 1, i, s =>
    if i < ar.length then do
      let opt ← arg ar i
      let val ← if i + 2 ≤ ar.length ∧ opt ∈ modeOptsArg then arg ar 3 else .ok []
      let s ←
        if (opt = str "+o" ∨ opt = str "-o") ∧ val ≠ [] then
          modeVals cli ar opt (splitArgToSubargs val) s
        else s.execModeOneOoption cli ar opt val
      modeLoop cli ar n (if opt ∈ modeOptsArg then i + 2 else i + 1) s
    else .ok s

/-- `execModeCh`. -/
def execModeCh (s : Server) (cli : Ptr) (ar : List Str) : Except Fault Server := do
  let c ← s.deref cli
  if c.registered = false then
    s.prepareResp cli (errNotRegistered c)
  else do
    let a1 ← arg ar 1
    if s.getCh a1 = none then
      s.prepareResp cli (str "403 " ++ a1 ++ str " :No such channel")
    else do
      let p ← s.getCliOnCh c.nick a1
      if p = NULL then
        s.prepareResp cli (str "442 " ++ a1 ++ str " :You're not on that channel")
      else do
        let adm ← s.getAdmOnCh c.nick a1
        if adm = NULL then
          s.prepareResp cli (str "482 " ++ a1 ++ str " :You're not channel operator")
        else if ar.length = 2 then do
          let m ← s.mode (s.getCh a1)
          s.prepareResp cli (str "MODE " ++ a1 ++ str " " ++ m)
        else modeLoop cli ar ar.length 2 s

/-- `execModeCli`. -/
def execModeCli (s : Server) (cli : Ptr) (ar : List Str) : Except Fault Server := do
  let c ← s.deref cli
  let a1 ← arg ar 1
  if s.getCli a1 = NULL then
    s.prepareResp cli (str "401 :" ++ a1 ++ str " No such nick")
  else do
    let d ← s.deref (s.getCli a1)
    if d.nick ≠ c.nick then
      s.prepareResp cli (str "502 :" ++ a1 ++ str " :Can't change mode for other users")
    else if ar.length = 2 then
      s.prepareResp cli (str "221 :" ++ c.nick ++ str " ")
    else do
      let a2 ← if 3 < ar.length then arg ar 2 else .ok []
      if a2 = str "+i" then
        s.prepareResp cli (str ":" ++ hostPrefix c ++ str " MODE " ++ a1 ++ str " +i ")
      else .ok s

/-! ## The dispatcher -/

/-- `execCmd`. -/
def execCmd (s : Server) (cli : Ptr) (ar : List Str) : Except Fault Server :=
  match ar with
  | [] => .ok s
  | a0 :: _ =>
    if a0 = str "PASS" then s.execPass cli ar
    else if a0 = str "NICK" then s.execNick cli ar
    else if a0 = str "USER" then s.execUser cli ar
    else if a0 = str "QUIT" then s.execQuit cli ar
    else if a0 = str "PING" then s.execPing cli
    else if a0 = str "CAP" then s.execCap cli ar
    else if a0 = str "WHOIS" then s.execWhois cli ar
    else if a0 = str "PRIVMSG" then s.execPrivmsg cli ar
    else if a0 = str "NOTICE" then s.execNotice cli ar
    else if a0 = str "JOIN" then s.execJoin cli ar
    else if a0 = str "PART" then s.execPart cli ar
    else if a0 = str "MODE" then
      if 1 < ar.length then do
        let a1 ← arg ar 1
        let b ← first a1
        if b = HASH then s.execModeCh cli ar else s.execModeCli cli ar
      else s.prepareResp cli (str "461 MODE :Not enough parameters")
    else if a0 = str "TOPIC" then s.execTopic cli ar
    else if a0 = str "INVITE" then s.execInvite cli ar
    else if a0 = str "KICK" then s.execKick cli ar
    else s.prepareResp cli (str "421 " ++ a0 ++ str " " ++ str " :is unknown mode char to me")

end FtIrc.Server
