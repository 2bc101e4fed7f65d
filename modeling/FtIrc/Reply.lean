import FtIrc.State

/-!
# Preparing replies

`prepareResp` and the two broadcasts of `utils.cpp`, and the two texts about a channel (`users`,
`mode`) that replies contain.
-/

namespace FtIrc.Server

open Std

/-- What `prepareResp` does to the record of the addressee. -/
def appendResp (msg : Str) (c : Cli) : Cli :=
  { c with
    bufToSend := c.bufToSend ++ (msg.take (MAX_CMD_LEN - 2) ++ CRLF)
    hist := { c.hist with prepared := c.hist.prepared ++ [msg] } }

/-- The effect of `prepareResp` on the server. -/
def push (s : Server) (toCli : Ptr) (msg : Str) : Server := s.updCli toCli (appendResp msg)

/-- `prepareResp(to, msg)`. -/
def prepareResp (s : Server) (toCli : Ptr) (msg : Str) : Except Fault Server := do
  let _ ← s.deref toCli
  .ok (s.push toCli msg)

/-- The loop of `prepareRespAuthorIncluding`. -/
def prepareRespAll (msg : Str) : List Ptr → Server → Except Fault Server
  | [], s => .ok s
  | toCli :: tos, s => do
    let s ← s.prepareResp toCli msg
    prepareRespAll msg tos s

/-- `prepareRespAuthorIncluding(ch, msg)`. -/
def prepareRespAuthorIncluding (s : Server) (ch : ChRef) (msg : Str) : Except Fault Server := do
  let c ← s.derefCh ch
  prepareRespAll msg c.clis.toList s

/-- The loop of `prepareRespExceptAuthor`. -/
def prepareRespOthers (cli : Ptr) (msg : Str) : List Ptr → Server → Except Fault Server
  | [], s => .ok s
  | toCli :: tos, s => do
    let t ← s.deref toCli
    let a ← s.deref cli
    let s ← if t.fd ≠ a.fd then s.prepareResp toCli msg else .ok s
    prepareRespOthers cli msg tos s

/-- `prepareRespExceptAuthor(ch, msg)`. -/
def prepareRespExceptAuthor (s : Server) (cli : Ptr) (ch : ChRef) (msg : Str) :
    Except Fault Server := do
  let c ← s.derefCh ch
  prepareRespOthers cli msg c.clis.toList s

/-- The loop of `users`. -/
def userNames (s : Server) (adms : ExtTreeSet Ptr) : List Ptr → Except Fault Str
  | [] => .ok []
  | p :: ps => do
    let c ← s.deref p
    let rest ← s.userNames adms ps
    .ok ((if p ∈ adms then str "@" ++ c.nick ++ str " " else c.nick ++ str " ") ++ rest)

/-- `users(ch)`: the nicks of the members, `@` before the operators. -/
def users (s : Server) : ChRef → Except Fault Str
  | none => .ok (str "ch is NULL\n")
  | some k => do
    let ch ← s.derefCh (some k)
    if ch.size = 0 then .ok (str "no users")
    else do
      let ret ← s.userNames ch.adms ch.clis.toList
      .ok ret.dropLast

/-- `mode(ch)`: the flags that are set, and the members. -/
def mode (s : Server) : ChRef → Except Fault Str
  | none => .ok (str "ch is NULL\n")
  | some k => do
    let ch ← s.derefCh (some k)
    let flags := (if ch.optT then str "t" else []) ++ (if ch.optI then str "i" else []) ++
      (if ch.pass ≠ [] then str "k" else []) ++ (if ch.limit < UINT_MAX then str "l" else [])
    let us ← s.users (some k)
    .ok ((if flags = [] then [] else str "+" ++ flags) ++ str ", " ++ us)

end FtIrc.Server
