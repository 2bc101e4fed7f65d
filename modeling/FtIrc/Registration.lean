import FtIrc.Reply
import FtIrc.Split

/-!
# Registration commands

`PASS`, `NICK`, `USER`, `CAP`, `PING` and `WHOIS` of `Commands.cpp`.  Each handler takes the state,
the author of the command (`cli`) and the arguments (`ar`, the command itself first).
-/

namespace FtIrc.Server

/-- `001`, sent by the handler that completes a registration. -/
def rplWelcome (c : Cli) : Str :=
  str "001 :" ++ c.nick ++ str ": Welcome to the Internet Relay Network " ++ c.nick ++ str "!" ++
    c.uName ++ str "@" ++ c.host

/-- `execPass`.  After a wrong password the function goes on and sets `passOk`. -/
def execPass (s : Server) (cli : Ptr) (ar : List Str) : Except Fault Server := do
  let c ← s.deref cli
  if c.passOk then
    s.prepareResp cli (str "462 :Unauthorized command (already registered)")
  else if ar.length < 2 then
    s.prepareResp cli (str "461 PASS :Not enough parameters")
  else do
    let a1 ← arg ar 1
    if a1 = [] then
      s.prepareResp cli (str "461 PASS :Not enough parameters")
    else do
      let s ←
        if a1 ≠ s.pass then
          (s.markToErase c.fd).prepareResp cli
            (str "464 :" ++ c.nick ++ str " :Password incorrect")
        else .ok s
      let s := s.updCli cli fun c => { c with passOk := true }
      if c.nick ≠ [] ∧ c.uName ≠ [] ∧ c.capInProgress = false then
        s.prepareResp cli (rplWelcome c)
      else .ok s

/-- The characters of a nick. -/
def nickChars : Str :=
  str "-[]^{}0123456789qwertyuiopasdfghjklzxcvbnmQWERTYUIOPASDFGHJKLZXCVBNM"

/-- `execNick`. -/
def execNick (s : Server) (cli : Ptr) (ar : List Str) : Except Fault Server := do
  let c ← s.deref cli
  if ar.length < 2 then
    s.prepareResp cli (str "431 :No nickname given")
  else do
    let a1 ← arg ar 1
    if a1.length = 0 then
      s.prepareResp cli (str "431 :No nickname given")
    else if 9 < a1.length ∨ ¬ ∀ b ∈ a1, b ∈ nickChars then
      s.prepareResp cli (str "432 " ++ a1 ++ str " :Erroneus nickname")
    else if ∃ d ∈ s.clients, toLower a1 = toLower d.nick then
      s.prepareResp cli
        (str "433 " ++ c.nick ++ str " " ++ a1 ++ str " :Nickname is already in use")
    else do
      let s := s.updCli cli fun c => { c with nick := a1 }
      if c.uName ≠ [] ∧ c.passOk = true ∧ c.capInProgress = false then
        s.prepareResp cli (rplWelcome { c with nick := a1 })
      else .ok s

/-- `execUser`. -/
def execUser (s : Server) (cli : Ptr) (ar : List Str) : Except Fault Server := do
  let c ← s.deref cli
  if ar.length < 5 then
    s.prepareResp cli (str "461 USER :Not enough parameters")
  else if c.uName ≠ [] then
    s.prepareResp cli (str ":username can not be empty")
  else do
    let a1 ← arg ar 1
    let a4 ← arg ar 4
    let s := s.updCli cli fun c => { c with uName := a1, rName := a4 }
    if c.nick ≠ [] ∧ c.passOk = true ∧ c.capInProgress = false then
      s.prepareResp cli (rplWelcome { c with uName := a1, rName := a4 })
    else .ok s

/-- `execCap`. -/
def execCap (s : Server) (cli : Ptr) (ar : List Str) : Except Fault Server := do
  let c ← s.deref cli
  if ar.length < 2 then .ok s
  else do
    let a1 ← arg ar 1
    if a1 = str "LS" then
      (s.updCli cli fun c => { c with capInProgress := true }).prepareResp cli (str "CAP * LS :")
    else if a1 = str "END" ∧ c.registered then
      (s.updCli cli fun c => { c with capInProgress := false }).prepareResp cli
        (str "001 :" ++ c.nick)
    else .ok s

/-- `execPing`. -/
def execPing (s : Server) (cli : Ptr) : Except Fault Server := s.prepareResp cli (str "PONG")

/-- The loop of `execWhois`. -/
def whoisLoop (cli : Ptr) : List Str → Server → Except Fault Server
  | [], s => .ok s
  | nick :: nicks, s => do
    let s ←
      if s.getCli nick = NULL then
        s.prepareResp cli (str "401 :" ++ nick ++ str " No such nick")
      else do
        let d ← s.deref (s.getCli nick)
        let s ← s.prepareResp cli
          (str "311 " ++ nick ++ str " " ++ d.uName ++ str " " ++ d.host ++ str " * :" ++ d.rName)
        s.prepareResp cli (str "318 " ++ nick ++ str " :End of WHOIS list")
    whoisLoop cli nicks s

/-- `execWhois`. -/
def execWhois (s : Server) (cli : Ptr) (ar : List Str) : Except Fault Server :=
  if ar.length < 2 then
    s.prepareResp cli (str "431 :No nickname given")
  else do
    let a1 ← arg ar 1
    whoisLoop cli (splitArgToSubargs a1) s

end FtIrc.Server
