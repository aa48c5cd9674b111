/-!
# Programs of atomic calls

A program is a tree: it is done with an answer, or it makes a call and goes on
with the reply. What happens between two calls touches nothing but the
program's own values, so an interleaving of programs is a choice of whose call
is next, and a program that waits is kept by keeping the function that takes
the reply.
-/

namespace Ferry

/-- The calls that programs can make, and the replies to them. -/
structure Signature where
  Call : Type
  Reply : Call → Type

inductive Program (S : Signature) (α : Type) where
  | done (a : α)
  | call (c : S.Call) (next : S.Reply c → Program S α)

namespace Program

variable {S : Signature} {α β : Type}

def bind : Program S α → (α → Program S β) → Program S β
  | done a, f => f a
  | call c next, f => call c fun r => (next r).bind f

instance : Monad (Program S) where
  pure := done
  bind := bind

/-- The program of one call. -/
def ask (c : S.Call) : Program S (S.Reply c) :=
  call c done

/-- Runs a program alone in a world that replies to its calls. -/
def run {σ : Type} (reply : (c : S.Call) → σ → S.Reply c × σ) : Program S α → σ → α × σ
  | done a, s => (a, s)
  | call c next, s =>
    let (r, s) := reply c s
    (next r).run reply s

/-- Runs a program alone up to the first call at which it is stopped, and then nothing is
left of it. -/
def runUntil {σ : Type} (stops : S.Call → Bool) (reply : (c : S.Call) → σ → S.Reply c × σ) :
    Program S α → σ → Option α × σ
  | done a, s => (some a, s)
  | call c next, s =>
    if stops c then (none, s)
    else
      let (r, s) := reply c s
      (next r).runUntil stops reply s

end Program

end Ferry
