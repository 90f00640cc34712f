import VmodRedis.CStrings

namespace VmodRedis.Replies

open CStrings

/-- `redisReply`: the fields that the type of the reply gives a meaning to. -/
inductive Reply where
  | status (str : Bytes)
  | error (str : Bytes)
  | integer (n : ℤ)
  | nil
  | string (str : Bytes)
  | double (str : Bytes)
  | bool (b : Bool)
  | verb (vtype str : Bytes)
  | bignum (str : Bytes)
  | array (element : List Reply)
  | set (element : List Reply)
  | push (element : List Reply)
  | map (element : List Reply)
  | attr (element : List Reply)

namespace Reply

def arrayOrMap : Reply → Option (List Reply)
  | array element | map element => some element
  | _ => none

def isError (word : Bytes) : Reply → Bool
  | error str => strncmp str word
  | _ => false

def isNoscript : Reply → Bool := isError (bytes "NOSCRIPT")

def isMoved : Reply → Bool := isError (bytes "MOVED")

def isAsk : Reply → Bool := isError (bytes "ASK")

def isRedirection (r : Reply) : Bool := r.isMoved || r.isAsk

theorem isNoscript_not_redirection {r : Reply} (h : r.isNoscript = true) : r.isRedirection = false := by
  cases r with
  | error str =>
    simp only [isRedirection, isMoved, isAsk, isNoscript, isError, strncmp, List.isPrefixOf_iff_prefix,
      Bool.or_eq_false_iff] at h ⊢
    obtain ⟨t, ht⟩ := h
    rw [← ht]
    exact ⟨rfl, rfl⟩
  | _ => simp [isNoscript, isError] at h

end Reply

end VmodRedis.Replies
