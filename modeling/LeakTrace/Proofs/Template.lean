import LeakTrace.Proofs.Position
import LeakTrace.Script.Drawing

namespace LeakTrace

open List

variable {source : String} {first second : Nat}

namespace Text

/-- An offset between two characters, or at an end of the text. -/
def Boundary (source : String) (offset : Nat) : Prop :=
  ∃ before, before <+: source.toList ∧ byteLength before = offset

end Text

namespace Script

open Text

variable {third : Nat}

section

variable (start : Boundary source first) (stop : Boundary source second) (le : first ≤ second)
include start stop le

end

namespace Drawing

/-- A part of what stands in a template: text, or a value that is put into it. -/
inductive Piece where
  | literal (start stop : Nat)
  | value (part : Syntax)

namespace Piece

def text (bytes : ByteArray) : Piece → String
  | literal start stop => textAt bytes start stop
  | value part => textAt bytes part.start part.stop

/-- What is drawn for a piece: nothing for a value without an expression. -/
def outlines (bytes : ByteArray) (inner : Syntax → Outline) : Piece → List Outline
  | literal start stop => [chunk bytes start stop]
  | value part => ((part.children.find? fun child => child.form != .comment).map inner).toList

def value? : Piece → Option Syntax
  | literal _ _ => none
  | value part => some part

end Piece

/-- The text that values leave free, if there is any. -/
def gap (start stop : Nat) : List Piece := if start < stop then [.literal start stop] else []

def pieces (stop : Nat) : (position : Nat) → (values : List Syntax) → List Piece
  | position, [] => gap position stop
  | position, part :: rest => gap position part.start ++ .value part :: pieces stop part.stop rest

/-- Values lie between two offsets one after another, and cut no character. -/
structure Spaced (source : String) (position stop : Nat) (values : List Syntax) : Prop where
  least : Boundary source position
  most : Boundary source stop
  le : position ≤ stop
  inside : ∀ part ∈ values, Boundary source part.start ∧ Boundary source part.stop ∧
    position ≤ part.start ∧ part.start ≤ part.stop ∧ part.stop ≤ stop
  ordered : values.Pairwise fun part later => part.stop ≤ later.start

variable {position stop : Nat} {values : List Syntax}

theorem Spaced.tail {part : Syntax} (spaced : Spaced source position stop (part :: values)) :
    Spaced source part.stop stop values := by
  obtain ⟨⟨_, ends, _, _, le⟩, inside⟩ := forall_mem_cons.1 spaced.inside
  obtain ⟨later, ordered⟩ := pairwise_cons.1 spaced.ordered
  refine ⟨ends, spaced.most, le, fun other among => ?_, ordered⟩
  obtain ⟨start, stop, _, bounds⟩ := inside other among
  exact ⟨start, stop, later other among, bounds⟩

end Drawing

end Script

end LeakTrace
