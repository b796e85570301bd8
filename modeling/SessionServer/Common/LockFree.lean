/-
  Common/LockFree.lean --- what the lock-free containers share.

  A word of a container is an address with a tag in its upper 16 bits.  The nodes come from
  the pool and go back to it; whose a node is, and which tags have been used, is recorded
  beside the program, which reads neither.
-/
import SessionServer.Foundation.Run
import SessionServer.Foundation.Chain
import SessionServer.Foundation.Hands
import SessionServer.Foundation.Histories

set_option autoImplicit false

namespace SessionServer.Common

namespace LockFree

/-- An address and the tag in its upper 16 bits. -/
structure Tagged where
  node : Nat
  tag : UInt16
  deriving DecidableEq, Repr

/-- What a pointer of a container holds; a null pointer has no tag. -/
abbrev Word := Option Tagged

/-- The address of a word. -/
def Word.node (w : Word) : Option Nat := w.map Tagged.node

/-- `(word & TAGMASK) + MAKETAG`. -/
def Word.nextTag (w : Word) : UInt16 :=
  match w with
  | none => 1
  | some w => w.tag + 1

/-- Whose a node is: the pool's, that of the thread which has just got it or is about to give
it back, or that of a container; the thread may still have to link it there. -/
inductive Home
  | free
  | thread (t : Nat)
  | entering (t q : Nat)
  | container (q : Nat)
  deriving DecidableEq, Repr

/-- Whether a container has given a tag to an insertion, and to which, or has a word with it or
had one. -/
inductive TagUse
  | unused
  | pending (t : Nat)
  | used
  deriving DecidableEq, Repr

/-- What a step of thread `t` may make of the home of a node: it may take a node of the pool or
give one back. -/
def HomeKept (t : Nat) (home home' : Home) : Prop :=
  home' = home ∨ (home = .thread t ∨ home = .free) ∧ (home' = .thread t ∨ home' = .free)

theorem HomeKept.eq {t : Nat} {home home' : Home} (h : HomeKept t home home')
    (hthread : home ≠ .thread t) (hfree : home ≠ .free) : home' = home :=
  h.resolve_right fun hown => hown.1.elim hthread hfree

theorem HomeKept.entering {t u q : Nat} {home home' : Home} (h : HomeKept t home home') :
    home' = .entering u q ↔ home = .entering u q := by
  rcases h with rfl | ⟨rfl | rfl, rfl | rfl⟩ <;> simp

end LockFree

end SessionServer.Common
