import VmodRedis.TaskCommands
import Mathlib.Data.Rat.Defs

namespace VmodRedis.TaskCommands

open CStrings Replies Database

inductive ReplyType where
  | status
  | error
  | integer
  | nil
  | string
  | double
  | bool
  | verb
  | bignum
  | array
  | set
  | push
  | map
  | attr
  deriving DecidableEq

def replyType : Reply → ReplyType
  | .status _ => .status
  | .error _ => .error
  | .integer _ => .integer
  | .nil => .nil
  | .string _ => .string
  | .double _ => .double
  | .bool _ => .bool
  | .verb _ _ => .verb
  | .bignum _ => .bignum
  | .array _ => .array
  | .set _ => .set
  | .push _ => .push
  | .map _ => .map
  | .attr _ => .attr

def isStringReply (r : Reply) : Bool := replyType r = .string || replyType r = .verb

def isArrayReply (r : Reply) : Bool := replyType r = .array || replyType r = .map || replyType r = .set

def replyStr : Reply → Bytes
  | .status str | .error str | .string str | .double str | .verb _ str | .bignum str => str
  | _ => []

def replyInteger : Reply → ℤ
  | .integer n => n
  | .bool b => if b then 1 else 0
  | _ => 0

def replyElements : Reply → List Reply
  | .array element | .set element | .push element | .map element | .attr element => element
  | _ => []

/-- A negative index is a huge one once compared with the number of elements. -/
def elementAt (index : ℤ) (r : Reply) : Option Reply :=
  if 0 ≤ index then (replyElements r)[index.toNat]? else none

def signedDecimal (n : ℤ) : Bytes := if n < 0 then 45 :: decimal n.natAbs else decimal n.natAbs

/-- `get_reply`: `copied` says whether the text fits in the workspace. -/
def getReply (copied : Bool) (r : Reply) : Option Bytes :=
  match replyType r with
  | .error | .status | .string | .verb | .double => if copied then some (replyStr r) else none
  | .integer | .bool => if copied then some (signedDecimal (replyInteger r)) else none
  | _ => none

section

variable {α : Type} (db : DbId) (s : Session Reply)

/-- What every accessor does: nothing but its default, unless the instance owns the command, there is
a reply and it is of the right kind. -/
def access (condition : Reply → Bool) (value : Reply → α) (fallback : α) : α :=
  let s := getTaskState false s
  if s.state.command.db = some db then
    match s.state.command.reply with
    | some r => if condition r then value r else fallback
    | none => fallback
  else fallback

def vmodDbReplied : Bool := access db s (fun _ => true) (fun _ => true) false

def vmodDbReplyIsError : Bool := access db s (replyType · = .error) (fun _ => true) false

def vmodDbReplyIsNil : Bool := access db s (replyType · = .nil) (fun _ => true) false

def vmodDbReplyIsStatus : Bool := access db s (replyType · = .status) (fun _ => true) false

def vmodDbReplyIsInteger : Bool := access db s (replyType · = .integer) (fun _ => true) false

def vmodDbReplyIsBoolean : Bool := access db s (replyType · = .bool) (fun _ => true) false

def vmodDbReplyIsDouble : Bool := access db s (replyType · = .double) (fun _ => true) false

def vmodDbReplyIsString : Bool := access db s isStringReply (fun _ => true) false

def vmodDbReplyIsArray : Bool := access db s isArrayReply (fun _ => true) false

def vmodDbGetReply (copied : Bool) : Option Bytes := access db s (fun _ => true) (getReply copied) none

def vmodDbGetIntegerReply : ℤ := access db s (replyType · = .integer) replyInteger 0

def vmodDbGetBooleanReply : Bool := access db s (replyType · = .bool) (fun r => replyInteger r ≠ 0) false

def vmodDbGetDoubleReply (dval : Bytes → ℚ) : ℚ :=
  access db s (replyType · = .double) (fun r => dval (replyStr r)) 0

def copyStr (copied : Bool) (r : Reply) : Option Bytes := if copied then some (replyStr r) else none

def vmodDbGetErrorReply (copied : Bool) : Option Bytes :=
  access db s (replyType · = .error) (copyStr copied) none

def vmodDbGetStatusReply (copied : Bool) : Option Bytes :=
  access db s (replyType · = .status) (copyStr copied) none

def vmodDbGetStringReply (copied : Bool) : Option Bytes := access db s isStringReply (copyStr copied) none

def vmodDbGetArrayReplyLength : ℕ := access db s isArrayReply (fun r => (replyElements r).length) 0

def elementIs (index : ℤ) (condition : Reply → Bool) (r : Reply) : Bool :=
  replyType r = .array && (elementAt index r).any condition

def vmodDbArrayReplyIsError (index : ℤ) : Bool :=
  access db s (elementIs index (replyType · = .error)) (fun _ => true) false

def vmodDbArrayReplyIsNil (index : ℤ) : Bool :=
  access db s (elementIs index (replyType · = .nil)) (fun _ => true) false

def vmodDbArrayReplyIsStatus (index : ℤ) : Bool :=
  access db s (elementIs index (replyType · = .status)) (fun _ => true) false

def vmodDbArrayReplyIsInteger (index : ℤ) : Bool :=
  access db s (elementIs index (replyType · = .integer)) (fun _ => true) false

def vmodDbArrayReplyIsBoolean (index : ℤ) : Bool :=
  access db s (elementIs index (replyType · = .bool)) (fun _ => true) false

def vmodDbArrayReplyIsDouble (index : ℤ) : Bool :=
  access db s (elementIs index (replyType · = .double)) (fun _ => true) false

def vmodDbArrayReplyIsString (index : ℤ) : Bool :=
  access db s (elementIs index isStringReply) (fun _ => true) false

def vmodDbArrayReplyIsArray (index : ℤ) : Bool :=
  access db s (elementIs index isArrayReply) (fun _ => true) false

def vmodDbGetArrayReplyValue (index : ℤ) (copied : Bool) : Option Bytes :=
  access db s isArrayReply (fun r => (elementAt index r).bind (getReply copied)) none

end

structure Observation where
  replied : Bool
  isError : Bool
  isNil : Bool
  isStatus : Bool
  isInteger : Bool
  isBoolean : Bool
  isDouble : Bool
  isString : Bool
  isArray : Bool
  reply : Bool → Option Bytes
  integer : ℤ
  boolean : Bool
  double : (Bytes → ℚ) → ℚ
  error : Bool → Option Bytes
  status : Bool → Option Bytes
  string : Bool → Option Bytes
  arrayLength : ℕ
  elementIsError : ℤ → Bool
  elementIsNil : ℤ → Bool
  elementIsStatus : ℤ → Bool
  elementIsInteger : ℤ → Bool
  elementIsBoolean : ℤ → Bool
  elementIsDouble : ℤ → Bool
  elementIsString : ℤ → Bool
  elementIsArray : ℤ → Bool
  element : ℤ → Bool → Option Bytes

def observe (db : DbId) (s : Session Reply) : Observation where
  replied := vmodDbReplied db s
  isError := vmodDbReplyIsError db s
  isNil := vmodDbReplyIsNil db s
  isStatus := vmodDbReplyIsStatus db s
  isInteger := vmodDbReplyIsInteger db s
  isBoolean := vmodDbReplyIsBoolean db s
  isDouble := vmodDbReplyIsDouble db s
  isString := vmodDbReplyIsString db s
  isArray := vmodDbReplyIsArray db s
  reply := vmodDbGetReply db s
  integer := vmodDbGetIntegerReply db s
  boolean := vmodDbGetBooleanReply db s
  double := vmodDbGetDoubleReply db s
  error := vmodDbGetErrorReply db s
  status := vmodDbGetStatusReply db s
  string := vmodDbGetStringReply db s
  arrayLength := vmodDbGetArrayReplyLength db s
  elementIsError := vmodDbArrayReplyIsError db s
  elementIsNil := vmodDbArrayReplyIsNil db s
  elementIsStatus := vmodDbArrayReplyIsStatus db s
  elementIsInteger := vmodDbArrayReplyIsInteger db s
  elementIsBoolean := vmodDbArrayReplyIsBoolean db s
  elementIsDouble := vmodDbArrayReplyIsDouble db s
  elementIsString := vmodDbArrayReplyIsString db s
  elementIsArray := vmodDbArrayReplyIsArray db s
  element := vmodDbGetArrayReplyValue db s

def Observation.none : Observation where
  replied := false
  isError := false
  isNil := false
  isStatus := false
  isInteger := false
  isBoolean := false
  isDouble := false
  isString := false
  isArray := false
  reply _ := .none
  integer := 0
  boolean := false
  double _ := 0
  error _ := .none
  status _ := .none
  string _ := .none
  arrayLength := 0
  elementIsError _ := false
  elementIsNil _ := false
  elementIsStatus _ := false
  elementIsInteger _ := false
  elementIsBoolean _ := false
  elementIsDouble _ := false
  elementIsString _ := false
  elementIsArray _ := false
  element _ _ := .none

theorem access_other {α : Type} {db : DbId} {s : Session Reply} (h : s.state.command.db ≠ some db)
    (condition : Reply → Bool) (value : Reply → α) (fallback : α) :
    access db s condition value fallback = fallback := by
  unfold access
  dsimp only
  rw [(getTaskState_keep s).1, if_neg h]

theorem observe_other {db : DbId} {s : Session Reply} (h : s.state.command.db ≠ some db) :
    observe db s = .none := by
  unfold observe Observation.none
  congr 1
  all_goals first
    | exact access_other h _ _ _
    | (funext _; exact access_other h _ _ _)
    | (funext _ _; exact access_other h _ _ _)

end VmodRedis.TaskCommands
