import BlockIngest.Duration
import BlockIngest.Height

/-!
# Limits of the connection to the node

Every call has a deadline, and requests and answers may only be so long.  A limit of nothing is
refused.

## Main definitions

* `NodeOptions`, `NodeOptions.forSlots` — the limits, and limits for a number of workers.
* `NodeOptions.fault?` — why limits are refused.
* `Endpoint.isUsable` — whether an address names a node that can be reached over the web protocols.
-/

namespace BlockIngest

/-- The limits of a connection. -/
structure NodeOptions where
  /-- How long an answer may take. -/
  requestTimeout : Nat := Duration.ofSeconds 10
  /-- How many calls may wait for their answers at once. -/
  maxConcurrentRequests : Nat := 256
  /-- The longest request in bytes. -/
  maxRequestBodyBytes : Nat := 64 * 1024
  /-- The longest answer in bytes; a block's answer holds all its transactions. -/
  maxResponseBodyBytes : Nat := 64 * 1024 * 1024
  deriving DecidableEq, Repr

namespace NodeOptions

/-- Limits for workers that each have at most one call waiting: two calls a worker, and at least
thirty-two. -/
def forSlots (slots requestTimeout : Nat) : NodeOptions :=
  { requestTimeout := requestTimeout, maxConcurrentRequests := max (min (2 * slots) Height.top) 32 }

/-- The complaint about the first limit that is nothing. -/
def fault? (o : NodeOptions) : Option String :=
  if o.requestTimeout = 0 then some "request_timeout must be greater than 0"
  else if o.maxConcurrentRequests = 0 then some "max_concurrent_requests must be greater than 0"
  else if o.maxRequestBodyBytes = 0 then some "max_request_body_bytes must be greater than 0"
  else if o.maxResponseBodyBytes = 0 then some "max_response_body_bytes must be greater than 0"
  else none

end NodeOptions

namespace Endpoint

/-- An address without the controls and spaces around it and without tabs and line ends. -/
def tidy (url : String) : List Char :=
  let edge := fun c : Char => decide (c.toNat ≤ 32)
  let inner := ((url.toList.dropWhile edge).reverse.dropWhile edge).reverse
  inner.filter fun c => c ≠ '\t' ∧ c ≠ '\n' ∧ c ≠ '\r'

/-- What follows the scheme of an address, if the scheme is one of the web protocols. -/
def afterScheme? (cs : List Char) : Option (List Char) :=
  let scheme := (cs.takeWhile (· ≠ ':')).map Char.toLower
  let rest := cs.dropWhile (· ≠ ':')
  if scheme = "http".toList ∨ scheme = "https".toList then rest.tail? else none

/-- Whether a character ends the part of an address that names the host. -/
def endsHost (c : Char) : Bool := c = '/' || c = '\\' || c = '?' || c = '#'

/-- Whether a character may stand in the name of a host. -/
def isHostChar (c : Char) : Bool :=
  let n := c.toNat
  !(n ≤ 32 || n == 127 || c = '<' || c = '>' || c = '[' || c = ']' || c = '^' ||
    c = '|' || c = '%' || c = '@')

/-- Whether a character may stand in an address of eight groups. -/
def isGroupChar (c : Char) : Bool := c.isDigit || c = ':' || c = '.' ||
  ('a' ≤ c && c ≤ 'f') || ('A' ≤ c && c ≤ 'F')

/-- Whether a text is a service number: nothing, or a number of 16 bits. -/
def isServiceNumber (cs : List Char) : Bool :=
  cs.all Char.isDigit && decide ((String.ofList cs).toNat?.getD 0 < 0x10000)

/-- Whether a text names a host, perhaps with a service number. -/
def isHost (cs : List Char) : Bool :=
  match cs with
  | '[' :: rest =>
      let groups := rest.takeWhile (· ≠ ']')
      match rest.dropWhile (· ≠ ']') with
      | [']'] => !groups.isEmpty && groups.all isGroupChar
      | ']' :: ':' :: service => !groups.isEmpty && groups.all isGroupChar &&
          isServiceNumber service
      | _ => false
  | _ =>
      let host := cs.takeWhile (· ≠ ':')
      !host.isEmpty && host.all isHostChar && isServiceNumber (cs.dropWhile (· ≠ ':')).tail

/-- What stands behind the last at sign: in front of it may stand the name of a user. -/
def afterUser (cs : List Char) : List Char := (cs.reverse.takeWhile (· ≠ '@')).reverse

/-- Whether an address has a web scheme and names a host. -/
def isUsable (url : String) : Bool :=
  match afterScheme? (tidy url) with
  | none => false
  | some rest =>
      let authority := (rest.dropWhile fun c => c = '/' || c = '\\').takeWhile fun c => !endsHost c
      isHost (afterUser authority)

end Endpoint

end BlockIngest
