import Mathlib.Data.List.Basic

namespace CsPrimer.Library

/-!
# Singly linked list segments

`next cell` is the link stored in an allocated cell, itself a pointer that may
be null.  `Segment next start cells stop` says that following links from
`start` visits exactly `cells` and arrives at `stop`; a whole list is a segment
that ends in the null pointer.
-/

/-- Following links from `start` visits `cells` and arrives at `stop`. -/
def Segment (next : Nat → Option (Option Nat)) :
    Option Nat → List Nat → Option Nat → Prop
  | start, [], stop =>
      start = stop
  | start, cell :: rest, stop =>
      start = some cell ∧
        ∃ link, next cell = some link ∧ Segment next link rest stop

namespace Segment

variable
  {next changed : Nat → Option (Option Nat)}
  {start middle stop : Option Nat}
  {cells later : List Nat}

/-- Segments only read the cells they visit. -/
theorem frame
    (segment : Segment next start cells stop)
    (same : ∀ cell ∈ cells, changed cell = next cell) :
    Segment changed start cells stop := by
  induction cells generalizing start with
  | nil =>
      exact segment
  | cons cell rest inductionHypothesis =>
      obtain ⟨isFirst, link, stored, segment⟩ := segment
      refine ⟨isFirst, link,
        (same cell (List.mem_cons_self ..)).trans stored, ?_⟩
      exact inductionHypothesis segment fun other member =>
        same other (List.mem_cons_of_mem cell member)

/-- Two consecutive segments form one. -/
theorem append
    (first : Segment next start cells middle)
    (second : Segment next middle later stop) :
    Segment next start (cells ++ later) stop := by
  induction cells generalizing start with
  | nil =>
      obtain rfl : start = middle := first
      exact second
  | cons cell rest inductionHypothesis =>
      obtain ⟨isFirst, link, stored, segment⟩ := first
      exact ⟨isFirst, link, stored, inductionHypothesis segment⟩

/-- A segment splits in front of its last cell. -/
theorem split_last
    {last : Nat}
    (segment : Segment next start (cells ++ [last]) stop) :
    Segment next start cells (some last) ∧ next last = some stop := by
  induction cells generalizing start with
  | nil =>
      obtain ⟨isFirst, link, stored, rfl⟩ := segment
      exact ⟨isFirst, stored⟩
  | cons cell rest inductionHypothesis =>
      obtain ⟨isFirst, link, stored, segment⟩ := segment
      obtain ⟨front, lastLink⟩ := inductionHypothesis segment
      exact ⟨⟨isFirst, link, stored, front⟩, lastLink⟩

/-- A segment extends by the cell it arrives at. -/
theorem snoc
    {cell : Nat}
    (segment : Segment next start cells (some cell))
    (stored : next cell = some stop) :
    Segment next start (cells ++ [cell]) stop :=
  segment.append ⟨rfl, stop, stored, rfl⟩

end Segment

/--
Redirecting the last link of a segment to a cell outside it makes that cell
the new end.
-/
theorem Segment.redirect
    {next changed : Nat → Option (Option Nat)}
    {start stop target : Option Nat}
    {cells : List Nat}
    {last : Nat}
    (segment : Segment next start (cells ++ [last]) stop)
    (distinct : (cells ++ [last]).Nodup)
    (redirected : changed last = some target)
    (same : ∀ cell, cell ≠ last → changed cell = next cell) :
    Segment changed start (cells ++ [last]) target := by
  have front := segment.split_last.1
  have lastFresh : last ∉ cells := by
    intro member
    exact (List.nodup_append.mp distinct).2.2 last member last
      (List.mem_singleton_self last) rfl
  refine (front.frame fun cell member => ?_).snoc redirected
  apply same
  rintro rfl
  exact lastFresh member

end CsPrimer.Library
