/-
  Foundation/Framing.lean --- self-delimiting frames in a stream that arrives in pieces.

  A framing encodes a value as a nonempty word and takes the first value off a word.  The
  decoder knows a whole frame from the front of the word and waits on any proper prefix of
  one.  Taking frames until it waits then yields the values of the stream in order, however
  the stream was cut.

  Nothing here names the server; the later files instantiate it.
-/
import Mathlib

set_option autoImplicit false

namespace SessionServer.Foundation

variable {α β : Type}

/-- A self-delimiting encoding of `α` over the letters `β`. -/
structure Framing (α β : Type) where
  encode : α → List β
  /-- the first value, and the word behind its frame -/
  decode : List β → Option (α × List β)
  /-- A whole frame is taken, whatever follows it. -/
  decode_encode : ∀ a rest, decode (encode a ++ rest) = some (a, rest)
  /-- On the beginning of a frame the decoder waits. -/
  decode_partial : ∀ a part, part <+: encode a → part ≠ encode a → decode part = none
  decode_nil : decode [] = none

namespace Framing

variable (f : Framing α β)

/-- The frames of the values, one after the other. -/
def stream (as : List α) : List β := as.flatMap f.encode

@[simp] theorem stream_nil : f.stream [] = [] := rfl

@[simp] theorem stream_cons (a : α) (as : List α) :
    f.stream (a :: as) = f.encode a ++ f.stream as := by
  simp [stream]

/-- **Taking frames until the decoder waits**: the values, and the word it is left with. -/
inductive Parses : List β → List α → List β → Prop where
  | wait {bytes : List β} (h : f.decode bytes = none) : Parses bytes [] bytes
  | take {bytes rest last : List β} {a : α} {as : List α} (h : f.decode bytes = some (a, rest))
      (hmore : Parses rest as last) : Parses bytes (a :: as) last

/-- The word is less than the first frame of what is left of the stream; it is empty when
nothing is left. -/
def Unfinished (bytes : List β) : List α → Prop
  | [] => bytes = []
  | a :: _ => bytes <+: f.encode a ∧ bytes ≠ f.encode a

variable {f}

/-- A word at a frame boundary begins with a whole frame or with a part of one. -/
theorem encode_or_partial {bytes incoming : List β} {a : α} {as : List α}
    (heq : bytes ++ incoming = f.stream (a :: as)) :
    (∃ rest, bytes = f.encode a ++ rest ∧ rest ++ incoming = f.stream as) ∨
      (bytes <+: f.encode a ∧ bytes ≠ f.encode a) := by
  rw [stream_cons] at heq
  rcases List.append_eq_append_iff.mp heq with ⟨more, hframe, hrest⟩ | ⟨rest, hbytes, hrest⟩
  · by_cases hwhole : bytes = f.encode a
    · refine Or.inl ⟨[], by simp [hwhole], ?_⟩
      have hnil : more = [] := by simpa [hwhole] using hframe
      simpa [hnil] using hrest
    · exact Or.inr ⟨⟨more, hframe.symm⟩, hwhole⟩
  · exact Or.inl ⟨rest, hbytes, hrest.symm⟩

/-- **The decoder takes the values of the stream in order**, and is left with less than a
frame. -/
theorem Parses.split {bytes last : List β} {as : List α} (h : f.Parses bytes as last) :
    ∀ {incoming : List β} {left : List α}, bytes ++ incoming = f.stream left →
      ∃ later, left = as ++ later ∧ last ++ incoming = f.stream later ∧
        f.Unfinished last later := by
  induction h with
  | @wait bytes hwait =>
      intro incoming left heq
      refine ⟨left, rfl, heq, ?_⟩
      cases left with
      | nil => exact (List.append_eq_nil_iff.mp heq).1
      | cons a left =>
          rcases encode_or_partial heq with ⟨rest, rfl, _⟩ | hpart
          · rw [f.decode_encode] at hwait
            simp at hwait
          · exact hpart
  | @take bytes rest last a as htake hmore ih =>
      intro incoming left heq
      cases left with
      | nil =>
          rw [(List.append_eq_nil_iff.mp heq).1, f.decode_nil] at htake
          simp at htake
      | cons b left =>
          rcases encode_or_partial heq with ⟨rest', rfl, hrest⟩ | ⟨hpre, hne⟩
          · rw [f.decode_encode, Option.some.injEq, Prod.mk.injEq] at htake
            obtain ⟨rfl, rfl⟩ := htake
            obtain ⟨later, rfl, hlast, hunfinished⟩ := ih hrest
            exact ⟨later, rfl, hlast, hunfinished⟩
          · rw [f.decode_partial b bytes hpre hne] at htake
            simp at htake

/-- Nothing is left of a word once the whole stream has arrived. -/
theorem Unfinished.nil_of_eq {bytes : List β} {later : List α} (h : f.Unfinished bytes later)
    (heq : bytes = f.stream later) : later = [] ∧ bytes = [] := by
  cases later with
  | nil => exact ⟨rfl, h⟩
  | cons a later =>
      obtain ⟨⟨more, hmore⟩, hne⟩ := h
      rw [stream_cons] at heq
      have hlength := congrArg List.length hmore
      have hlength' := congrArg List.length heq
      simp only [List.length_append] at hlength hlength'
      have hnil : more = [] := List.length_eq_zero_iff.mp (by omega)
      rw [hnil, List.append_nil] at hmore
      exact absurd hmore hne

/-- At a frame boundary there is a way to take frames until the decoder waits. -/
theorem exists_parses {incoming : List β} {as : List α} :
    ∀ {bytes : List β}, bytes ++ incoming = f.stream as →
      ∃ taken last, f.Parses bytes taken last := by
  induction as with
  | nil =>
      intro bytes heq
      rw [(List.append_eq_nil_iff.mp heq).1]
      exact ⟨[], [], .wait f.decode_nil⟩
  | cons a as ih =>
      intro bytes heq
      rcases encode_or_partial heq with ⟨rest, rfl, hrest⟩ | ⟨hpre, hne⟩
      · obtain ⟨taken, last, hparses⟩ := ih hrest
        exact ⟨a :: taken, last, .take (f.decode_encode a rest) hparses⟩
      · exact ⟨[], bytes, .wait (f.decode_partial a bytes hpre hne)⟩

end Framing

end SessionServer.Foundation
