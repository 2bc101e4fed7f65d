import FtIrc.Messaging

/-!
# Channel commands

`PART`, `JOIN`, `KICK`, `INVITE` and `TOPIC` of `Commands.cpp`.
-/

namespace FtIrc.Server

/-! ## PART -/

/-- The loop of `execPart`: the list is looked up item by item, the announcement with the whole
argument `a1`; `text` is what follows it on the line. -/
def partLoop (cli : Ptr) (c : Cli) (a1 text : Str) : List Str → Server → Except Fault Server
  | [], s => .ok s
  | chName :: chNames, s => do
    let s ←
      if s.getCh chName = none then
        s.prepareResp cli (str "403 " ++ chName ++ str " :No such channel")
      else do
        let p ← s.getCliOnCh c.nick chName
        if p = NULL then
          s.prepareResp cli (str "442 " ++ chName ++ str " :You're not on that channel")
        else do
          let s ← s.prepareRespAuthorIncluding (s.getCh a1)
            (str ":" ++ hostPrefix c ++ str " PART " ++ a1 ++ text)
          s.eraseCliFromCh c.nick chName
    partLoop cli c a1 text chNames s

/-- `execPart`. -/
def execPart (s : Server) (cli : Ptr) (ar : List Str) : Except Fault Server := do
  let c ← s.deref cli
  if c.registered = false then
    s.prepareResp cli (errNotRegistered c)
  else if ar.length < 2 then
    s.prepareResp cli (str "461 PART :Not enough parameters")
  else do
    let a1 ← arg ar 1
    let text ← if 2 < ar.length then do let a2 ← arg ar 2; .ok (str " :" ++ a2) else .ok []
    partLoop cli c a1 text (splitArgToSubargs a1) s

/-! ## JOIN -/

/-- The test on a channel name that gives `403`. -/
def badChName (chName : Str) : Except Fault Bool :=
  if chName.length ≤ 1 ∨ 200 < chName.length then .ok true
  else do
    let b ← first chName
    .ok (b ≠ HASH ∨ ∃ b ∈ chName, b ∈ str "0\\")

/-- The end of the loop body of `execJoin`: the tests of the modes, then the admission. -/
def joinCh (s : Server) (cli : Ptr) (c : Cli) (chName pass : Str) : Except Fault Server := do
  let me ← s.deref cli
  let ch ← s.derefCh (s.getCh chName)
  if ch.pass ≠ [] ∧ pass ≠ ch.pass then
    s.prepareResp cli (str "475 " ++ chName ++ str " :Cannot join channel (+k)")
  else if ch.limit ≤ ch.size then
    s.prepareResp cli (str "471 " ++ chName ++ str " :Cannot join channel (+l)")
  else if ch.optI = true ∧ chName ∉ me.invits then
    s.prepareResp cli (str "473 " ++ chName ++ str " :Cannot join channel (+i)")
  else do
    let s ← s.setCh chName fun ch => { ch with clis := ch.clis.insert cli }
    let s := if chName ∈ me.invits then
      s.updCli cli fun c => { c with invits := c.invits.erase chName } else s
    let s ← s.prepareRespAuthorIncluding (s.getCh chName)
      (str ":" ++ hostPrefix c ++ str " JOIN " ++ chName)
    let ch ← s.derefCh (s.getCh chName)
    let s ←
      if ch.topic ≠ [] then
        s.prepareResp cli (str "332 " ++ c.nick ++ str " " ++ chName ++ str " :" ++ ch.topic)
      else .ok s
    let us ← s.users (s.getCh chName)
    s.prepareRespAuthorIncluding (s.getCh chName)
      (str ":localhost 353 " ++ localPrefix c ++ str " = " ++ chName ++ str " :" ++ us)

/-- The loop of `execJoin`; `405` ends it. -/
def joinLoop (cli : Ptr) (c : Cli) (a1 : Str) :
    List Str → List Str → Server → Except Fault Server
  | [], _, s => .ok s
  | chName :: chNames, passes, s =>
    if MAX_CHS_PER_USER - 1 < s.nbChannels cli then
      s.prepareResp cli (str "405 " ++ a1 ++ str " :You have joined too many channels")
    else do
      let bad ← badChName chName
      if bad then do
        let s ← s.prepareResp cli (str "403 " ++ chName ++ str " :No such channel")
        joinLoop cli c a1 chNames passes s
      else do
        let p ← s.getCliOnCh c.nick chName
        if p ≠ NULL then do
          let s ← s.prepareResp cli (str ":you are already on channel " ++ chName)
          joinLoop cli c a1 chNames passes s
        else do
          let s :=
            if s.getCh chName = none then { s with chs := s.chs.insert chName (Ch.new cli) } else s
          let s ← s.joinCh cli c chName (passes.headD [])
          joinLoop cli c a1 chNames passes.tail s

/-- The argument that `JOIN 0` makes: the channels of the author, each followed by a comma. -/
def joinedNames (s : Server) (nick : Str) : List Str → Except Fault Str
  | [] => .ok []
  | k :: ks => do
    let p ← s.getCliOnCh nick k
    let rest ← s.joinedNames nick ks
    .ok (if p ≠ NULL then k ++ str "," ++ rest else rest)

/-- `execJoin`. -/
def execJoin (s : Server) (cli : Ptr) (ar : List Str) : Except Fault Server := do
  let c ← s.deref cli
  if c.registered = false then
    s.prepareResp cli (errNotRegistered c)
  else if ar.length < 2 then
    s.prepareResp cli (str "461 JOIN :Not enough parameters")
  else do
    let a1 ← arg ar 1
    if ar.length = 2 ∧ a1 = str "0" then do
      let names ← s.joinedNames c.nick s.chs.keys
      s.execPart cli (ar.set 1 names.dropLast)
    else
      let chNames := splitArgToSubargs a1
      if tooManyTargets chNames then
        s.prepareResp cli (a1 ++ str " :407 recipients. Too many targets.")
      else do
        let passes ←
          if 3 ≤ ar.length then do let a2 ← arg ar 2; .ok (splitArgToSubargs a2) else .ok []
        joinLoop cli c a1 chNames passes s

/-! ## KICK -/

/-- The inner loop of `execKick`, over the targets; `line` is the announcement. -/
def kickTargets (cli : Ptr) (a1 line chName : Str) : List Str → Server → Except Fault Server
  | [], s => .ok s
  | target :: targets, s => do
    let p ← s.getCliOnCh target chName
    let s ←
      if p = NULL then
        s.prepareResp cli
          (str "441 " ++ target ++ str " " ++ chName ++ str " :They aren't on that channel")
      else do
        let s ← s.prepareRespAuthorIncluding (s.getCh a1) line
        s.eraseCliFromCh target chName
    kickTargets cli a1 line chName targets s

/-- The outer loop of `execKick`, over the channels. -/
def kickLoop (cli : Ptr) (c : Cli) (a1 line : Str) (targets : List Str) :
    List Str → Server → Except Fault Server
  | [], s => .ok s
  | chName :: chNames, s => do
    let s ←
      if s.getCh chName = none then
        s.prepareResp cli (str "403 " ++ chName ++ str " :No such channel")
      else do
        let p ← s.getCliOnCh c.nick chName
        if p = NULL then
          s.prepareResp cli (str "442 " ++ chName ++ str " :You're not on that channel")
        else do
          let p ← s.getAdmOnCh c.nick chName
          if p = NULL then
            s.prepareResp cli (str "482 " ++ chName ++ str " :You're not channel operator")
          else kickTargets cli a1 line chName targets s
    kickLoop cli c a1 line targets chNames s

/-- `execKick`. -/
def execKick (s : Server) (cli : Ptr) (ar : List Str) : Except Fault Server := do
  let c ← s.deref cli
  if c.registered = false then
    s.prepareResp cli (errNotRegistered c)
  else if ar.length < 3 then
    s.prepareResp cli (str "461 KICK :Not enough parameters")
  else do
    let a1 ← arg ar 1
    let a2 ← arg ar 2
    let text ← if 3 < ar.length then do let a3 ← arg ar 3; .ok (str " :" ++ a3) else .ok []
    let line := str ":" ++ hostPrefix c ++ str " KICK " ++ a1 ++ str " " ++ a2 ++ text
    kickLoop cli c a1 line (splitArgToSubargs a2) (splitArgToSubargs a1) s

/-! ## INVITE and TOPIC -/

/-- `execInvite`. -/
def execInvite (s : Server) (cli : Ptr) (ar : List Str) : Except Fault Server := do
  let c ← s.deref cli
  if c.registered = false then
    s.prepareResp cli (errNotRegistered c)
  else if ar.length < 3 then
    s.prepareResp cli (str "461 INVITE :Not enough parameters")
  else do
    let a1 ← arg ar 1
    let a2 ← arg ar 2
    if s.getCli a1 = NULL then
      s.prepareResp cli (str "401 " ++ a1 ++ str " :No such nick")
    else if s.getCh a2 = none then
      s.prepareResp cli (str "403 " ++ a1 ++ str " :No such channel")
    else do
      let p ← s.getCliOnCh c.nick a2
      if p = NULL then
        s.prepareResp cli (str "442 " ++ a2 ++ str " :You're not on that channel")
      else do
        let adm ← s.getAdmOnCh c.nick a2
        let ch ← s.derefCh (s.getCh a2)
        if adm = NULL ∧ ch.optI = true then
          s.prepareResp cli (str "482 " ++ a2 ++ str " :You're not channel operator")
        else do
          let q ← s.getCliOnCh a1 a2
          if q ≠ NULL then
            s.prepareResp cli (str "443 " ++ a1 ++ str " " ++ a2 ++ str " :is already on channel")
          else do
            let s :=
              if s.getCh a2 = none then { s with chs := s.chs.insert a2 (Ch.new cli) } else s
            let _ ← s.deref (s.getCli a1)
            let s := s.updCli (s.getCli a1) fun d => { d with invits := d.invits.insert a2 }
            let s ← s.prepareResp cli
              (str ":" ++ hostPrefix c ++ str " 341 " ++ a1 ++ str " " ++ a2)
            let s ← s.prepareResp (s.getCli a1)
              (str ":" ++ hostPrefix c ++ str " INVITE " ++ a1 ++ str " " ++ a2)
            s.prepareRespAuthorIncluding (s.getCh a2)
              (str ":" ++ hostPrefix c ++ str " INVITE " ++ a1 ++ str " " ++ a2)

/-- `execTopic`. -/
def execTopic (s : Server) (cli : Ptr) (ar : List Str) : Except Fault Server := do
  let c ← s.deref cli
  if c.registered = false then
    s.prepareResp cli (errNotRegistered c)
  else if ar.length < 2 then
    s.prepareResp cli (str "461 TOPIC :Not enough parameters")
  else do
    let a1 ← arg ar 1
    if s.getCh a1 = none then
      s.prepareResp cli (str "403 " ++ a1 ++ str " :No such channel")
    else do
      let p ← s.getCliOnCh c.nick a1
      if p = NULL then
        s.prepareResp cli (str "442 " ++ a1 ++ str " :You're not on that channel")
      else do
        let adm ← s.getAdmOnCh c.nick a1
        let ch ← s.derefCh (s.getCh a1)
        if adm = NULL ∧ ch.optT = true then
          s.prepareResp cli (str "482 " ++ a1 ++ str " :You're not channel operator")
        else if ar.length = 2 then
          if ch.topic = [] then
            s.prepareResp cli (str "331 :" ++ c.nick ++ str " " ++ a1 ++ str " :No topic is set")
          else
            s.prepareResp cli (str "332 :" ++ c.nick ++ str " " ++ a1 ++ str " :" ++ ch.topic)
        else do
          let a2 ← arg ar 2
          if a2 = str ":" ∨ a2 = [] then do
            let s ← s.setCh a1 fun ch => { ch with topic := [] }
            let s ← s.prepareRespAuthorIncluding (s.getCh a1)
              (str ":" ++ c.nick ++ str "@localhost" ++ str " TOPIC " ++ a1 ++
                str " :No topic is set")
            s.prepareResp cli (str "331 :" ++ c.nick ++ str " " ++ a1 ++ str " :No topic is set")
          else do
            let s ← s.setCh a1 fun ch => { ch with topic := a2 }
            let s ← s.prepareResp cli
              (str "332 :" ++ c.nick ++ str " " ++ a1 ++ str " :1" ++ a2)
            s.prepareRespAuthorIncluding (s.getCh a1)
              (str ":" ++ c.nick ++ str "@localhost" ++ str " TOPIC " ++ a1 ++ str " :2" ++ a2)

end FtIrc.Server
