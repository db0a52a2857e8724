import TagTemplate.Proofs.Template.Scan
import TagTemplate.Proofs.Text.Offset
import TagTemplate.Template.Compiler

/-!
# The places of tags

Where tags stand can be said by offsets alone: a tag begins at an opening delimiter, ends
with the first closing delimiter behind it, and has no line feed in its body (`TagAt`);
from an offset on, the next tag is the one that begins first (`Scans`).  A scan finds
these places and no others (`Compiler.scans_iff_eq_places`).
-/

namespace TagTemplate

open Text

namespace Segments

/-- A tag stands at the place, and its closing delimiter at the offset `close`. -/
structure TagAt (delimiters : Delimiters) (source : Text) (place : Place) (close : Nat) :
    Prop where
  opening : StandsAt source place.start delimiters.opening
  closing : IsLeast {offset | place.start + byteSize delimiters.opening ≤ offset ∧
    StandsAt source offset delimiters.closing} close
  stop : place.stop = close + byteSize delimiters.closing
  body : place.body = trim (slice source (place.start + byteSize delimiters.opening) close)
  oneLine : '\n' ∉ place.body

def IsTag (delimiters : Delimiters) (source : Text) (place : Place) : Prop :=
  ∃ close, TagAt delimiters source place close

/-- The places that are found from an offset on: each time the tag that begins first. -/
inductive Scans (delimiters : Delimiters) (source : Text) : Nat → List Place → Prop
  | stop {offset : Nat} (none : ∀ place, IsTag delimiters source place → place.start < offset) :
      Scans delimiters source offset []
  | next {offset : Nat} {place : Place} {places : List Place}
      (tag : IsTag delimiters source place)
      (least : IsLeast {start | offset ≤ start ∧
        ∃ other, IsTag delimiters source other ∧ other.start = start} place.start)
      (more : Scans delimiters source place.stop places) :
      Scans delimiters source offset (place :: places)

/-- The text between the places and at them, put together. -/
def joinCuts (source : Text) : Nat → List Place → Text
  | offset, [] => slice source offset (byteSize source)
  | offset, place :: places =>
      slice source offset place.start ++ slice source place.start place.stop ++
        joinCuts source place.stop places

variable {delimiters : Delimiters} {source : Text}

/-! ## One tag -/

/-- Behind a given front, to stand at a place is to be read there. -/
theorem isTag_behind_iff (hsolid : StartsSolid delimiters.closing) {front back : Text}
    {place : Place} (hstart : place.start = byteSize front) :
    IsTag delimiters (front ++ back) place ↔
      ∃ tag rest, Tag.read? delimiters back = some (tag, rest) ∧
        place.stop = place.start + byteSize (tag.source delimiters) ∧ place.body = tag.body := by
  constructor
  · rintro ⟨close, htag⟩
    have hopening := htag.opening
    rw [hstart, standsAt_behind_iff] at hopening
    rcases hopening with ⟨inside, rfl⟩
    have hclosing := htag.closing
    rw [hstart, ← byteSize_append, ← List.append_assoc, isLeast_standsAt_iff] at hclosing
    rcases hclosing with ⟨inner, rest, hcut, rfl⟩
    have hinside := eq_of_cutToken? hcut
    have hslice := slice_append (front ++ delimiters.opening) inner (delimiters.closing ++ rest)
    have hbody : place.body = trim inner := by
      rw [htag.body, hstart, hinside, ← byteSize_append]
      simp only [List.append_assoc] at hslice ⊢
      rw [hslice]
    refine ⟨⟨inner⟩, rest, (Tag.read?_eq_some_iff hsolid).2 ⟨?_, ?_, ?_⟩, ?_, hbody⟩
    · rw [hinside, Tag.source]
      simp
    · exact endsFirst_of_cutToken? hcut
    · have hline := htag.oneLine
      rw [hbody] at hline
      exact hline
    · rw [htag.stop, hstart, Tag.source]
      simp only [byteSize_append]
      omega
  · rintro ⟨tag, rest, hread, hstop, hbody⟩
    rcases (Tag.read?_eq_some_iff hsolid).1 hread with ⟨rfl, hfirst, hline⟩
    have hslice := slice_append (front ++ delimiters.opening) tag.inner
      (delimiters.closing ++ rest)
    refine ⟨byteSize (front ++ delimiters.opening) + byteSize tag.inner, ?_, ?_, ?_, ?_, ?_⟩
    · rw [hstart, standsAt_behind_iff, Tag.source, List.append_assoc, List.append_assoc]
      exact List.prefix_append _ _
    · have hcut : IsLeast {offset | byteSize (front ++ delimiters.opening) ≤ offset ∧
          StandsAt (front ++ delimiters.opening ++ (tag.inner ++ delimiters.closing ++ rest))
            offset delimiters.closing}
          (byteSize (front ++ delimiters.opening) + byteSize tag.inner) :=
        isLeast_standsAt_iff.2 ⟨tag.inner, rest, hfirst.cutToken? rest, rfl⟩
      rw [hstart, ← byteSize_append, Tag.source]
      simp only [List.append_assoc] at hcut ⊢
      exact hcut
    · rw [hstop, hstart, Tag.source]
      simp only [byteSize_append]
      omega
    · rw [hbody, hstart, ← byteSize_append, Tag.source, Tag.body]
      simp only [List.append_assoc] at hslice ⊢
      rw [hslice]
    · rw [hbody]
      exact hline

/-- Where a tag begins decides where it ends and what its body is. -/
theorem IsTag.eq_of_start_eq {place place' : Place} (h : IsTag delimiters source place)
    (h' : IsTag delimiters source place') (hstart : place.start = place'.start) :
    place = place' := by
  rcases h with ⟨close, h⟩
  rcases h' with ⟨close', h'⟩
  have hclosing := h.closing
  rw [hstart] at hclosing
  obtain rfl := hclosing.unique h'.closing
  have hstop : place.stop = place'.stop := by rw [h.stop, h'.stop]
  have hbody : place.body = place'.body := by rw [h.body, h'.body, hstart]
  cases place
  cases place'
  simp only at hstart hstop hbody
  rw [hstart, hstop, hbody]

theorem IsTag.isBoundary {place : Place} (h : IsTag delimiters source place) :
    IsBoundary source place.start ∧ IsBoundary source place.stop := by
  rcases h with ⟨close, h⟩
  refine ⟨h.opening.isBoundary.1, ?_⟩
  rw [h.stop]
  exact h.closing.1.2.isBoundary.2

theorem IsTag.start_lt_stop {place : Place} (h : IsTag delimiters source place) :
    place.start < place.stop := by
  rcases h with ⟨close, h⟩
  have hclosing := h.closing.1.1
  have hpos := mt byteSize_eq_zero_iff.1 delimiters.opening_ne_nil
  have hstop := h.stop
  omega

/-! ## A run of tags -/

theorem Scans.unique {offset : Nat} {places places' : List Place}
    (h : Scans delimiters source offset places) (h' : Scans delimiters source offset places') :
    places = places' := by
  induction h generalizing places' with
  | stop hnone =>
      cases h' with
      | stop => rfl
      | next htag hleast =>
          have hlt := hnone _ htag
          have hle := hleast.1.1
          omega
  | next htag hleast hmore ih =>
      cases h' with
      | stop hnone =>
          have hlt := hnone _ htag
          have hle := hleast.1.1
          omega
      | next htag' hleast' hmore' =>
          obtain rfl := htag.eq_of_start_eq htag' (hleast.unique hleast')
          rw [ih hmore']

/-- A scan may begin earlier if no tag begins in between. -/
theorem Scans.of_le {offset later : Nat} {places : List Place}
    (h : Scans delimiters source later places) (hle : offset ≤ later)
    (hnone : ∀ place, IsTag delimiters source place → offset ≤ place.start →
      later ≤ place.start) : Scans delimiters source offset places := by
  cases h with
  | stop hstop =>
      refine .stop fun place htag => ?_
      have hlt := hstop place htag
      have hbetween := hnone place htag
      omega
  | next htag hleast hmore =>
      refine .next htag ⟨⟨Nat.le_trans hle hleast.1.1, hleast.1.2⟩, ?_⟩ hmore
      rintro start ⟨hstart, other, hother, rfl⟩
      exact hleast.2 ⟨hnone other hother hstart, other, hother, rfl⟩

theorem placesFrom_push (c : Char) (segments : Segments) (offset : Nat) :
    placesFrom delimiters offset (segments.push c).tags =
      placesFrom delimiters (offset + c.utf8Size) segments.tags := by
  rcases segments with ⟨_ | ⟨⟨before, tag⟩, others⟩, rest⟩
  · rfl
  · simp only [push, placesFrom, byteSize_cons, Nat.add_assoc]

/-- No tag begins inside a character. -/
theorem byteSize_le_start_of_read?_eq_none (hsolid : StartsSolid delimiters.closing)
    {front text : Text} {c : Char} (hread : Tag.read? delimiters (c :: text) = none)
    {place : Place} (htag : IsTag delimiters (front ++ c :: text) place)
    (hle : byteSize front ≤ place.start) : byteSize (front ++ [c]) ≤ place.start := by
  obtain ⟨close, hat⟩ := htag
  rcases hat.opening.behind hle with ⟨between, rest, hback, hstart⟩
  cases between with
  | nil =>
      have hstart' : place.start = byteSize front := hstart
      rcases (isTag_behind_iff hsolid hstart').1 ⟨close, hat⟩ with ⟨tag, behind, hsome, -⟩
      rw [hread] at hsome
      cases hsome
  | cons d between =>
      obtain rfl := (List.cons.inj hback).1
      rw [hstart]
      simp only [byteSize_append, byteSize]
      omega

theorem scans_placesFrom (hsolid : StartsSolid delimiters.closing) (front text : Text) :
    Scans delimiters (front ++ text) (byteSize front)
      (placesFrom delimiters (byteSize front) (ofText delimiters text).tags) := by
  -- The rules speak of the whole source, the scan of what is left of it: `front` is what the
  -- scan has passed, and it grows with each step.
  induction text using ofText_induction delimiters generalizing front with
  | nil =>
      rw [ofText_nil]
      refine .stop fun place htag => ?_
      by_contra hle
      obtain ⟨close, hat⟩ := htag
      rcases hat.opening.behind (Nat.le_of_not_lt hle) with ⟨between, rest, hback, -⟩
      have hnil := (List.append_eq_nil_iff.1 hback.symm).1
      exact delimiters.opening_ne_nil (List.append_eq_nil_iff.1 hnil).2
  | tag text tag rest hread ih =>
      have htext := Tag.eq_of_read? hread
      have hmore := ih (front ++ tag.source delimiters)
      rw [List.append_assoc, ← htext, byteSize_append] at hmore
      rw [ofText_of_read? hread]
      refine .next ((isTag_behind_iff hsolid rfl).2 ⟨tag, rest, hread, rfl, rfl⟩) ?_ hmore
      refine ⟨⟨Nat.le_refl _, _, (isTag_behind_iff hsolid rfl).2
        ⟨tag, rest, hread, rfl, rfl⟩, rfl⟩, ?_⟩
      rintro start ⟨hle, -⟩
      exact hle
  | literal c text hread ih =>
      have hmore := ih (front ++ [c])
      rw [List.append_assoc, List.singleton_append] at hmore
      rw [ofText_of_read?_eq_none hread, placesFrom_push]
      have hsize : byteSize (front ++ [c]) = byteSize front + c.utf8Size := by
        rw [byteSize_append]
        rfl
      rw [← hsize]
      refine hmore.of_le (by omega) ?_
      intro place htag hle
      exact byteSize_le_start_of_read?_eq_none hsolid hread htag hle

/-! ## What follows from the rules -/

theorem Scans.isTag_of_mem {offset : Nat} {places : List Place}
    (h : Scans delimiters source offset places) :
    ∀ place ∈ places, offset ≤ place.start ∧ IsTag delimiters source place := by
  induction h with
  | stop => simp
  | next htag hleast _ ih =>
      intro place hplace
      rcases List.mem_cons.1 hplace with rfl | hplace
      · exact ⟨hleast.1.1, htag⟩
      · have hlater := ih place hplace
        have hlt := htag.start_lt_stop
        have hle := hleast.1.1
        exact ⟨by omega, hlater.2⟩

theorem Scans.pairwise {offset : Nat} {places : List Place}
    (h : Scans delimiters source offset places) :
    places.Pairwise fun left right => left.stop ≤ right.start := by
  induction h with
  | stop => exact List.Pairwise.nil
  | next _ _ hmore ih =>
      exact List.pairwise_cons.2 ⟨fun place hplace => (hmore.isTag_of_mem place hplace).1, ih⟩

theorem Scans.joinCuts_eq {offset : Nat} {places : List Place}
    (h : Scans delimiters source offset places) (hoffset : IsBoundary source offset) :
    joinCuts source offset places = slice source offset (byteSize source) := by
  have hend : IsBoundary source (byteSize source) := ⟨source, [], by simp, rfl⟩
  have hle : ∀ {stop}, IsBoundary source stop → stop ≤ byteSize source := by
    rintro stop ⟨front, back, rfl, rfl⟩
    rw [byteSize_append]
    omega
  induction h with
  | stop => rfl
  | next htag hleast _ ih =>
      -- The gap, the tag and all that is behind it meet at boundaries.
      obtain ⟨hstart, hstop⟩ := htag.isBoundary
      have hlt := htag.start_lt_stop
      rw [joinCuts, ih hstop,
        slice_append_slice hoffset hstart hstop hleast.1.1 (Nat.le_of_lt hlt),
        slice_append_slice hoffset hstop hend (by have := hleast.1.1; omega) (hle hstop)]

end Segments

namespace Compiler

open Segments

/-- A scan finds the tags that stand first, one behind the other, and stops where no more
tag stands.  So the places ascend and do not overlap, they lie between characters, and the
tags and the gaps between them are the source. -/
theorem scans_iff_eq_places (compiler : Compiler) (source : Text)
    (hclosing : ∀ c ∈ compiler.config.sourceClose.head?, isBlank c = false) :
    let places := (compiler.scan source).places compiler.sourceDelimiters
    (∀ found, Scans compiler.sourceDelimiters source 0 found ↔ found = places) ∧
      places.Pairwise (fun left right => left.stop ≤ right.start) ∧
      (∀ place ∈ places, place.start < place.stop ∧ IsBoundary source place.start ∧
        IsBoundary source place.stop) ∧
      joinCuts source 0 places = source := by
  intro places
  have hsolid : StartsSolid compiler.sourceDelimiters.closing := by
    obtain ⟨c, rest, heq⟩ := List.exists_cons_of_ne_nil compiler.sourceDelimiters.closing_ne_nil
    refine ⟨c, rest, heq, hclosing c ?_⟩
    change c ∈ compiler.sourceDelimiters.closing.head?
    rw [heq]
    rfl
  have hscans : Scans compiler.sourceDelimiters source 0 places := scans_placesFrom hsolid [] source
  refine ⟨?_, hscans.pairwise, ?_, ?_⟩
  · intro found
    constructor
    · exact fun hfound => hfound.unique hscans
    · rintro rfl
      exact hscans
  · intro place hplace
    have htag := (hscans.isTag_of_mem place hplace).2
    exact ⟨htag.start_lt_stop, htag.isBoundary⟩
  · rw [hscans.joinCuts_eq ⟨[], source, rfl, rfl⟩]
    simpa [byteSize] using slice_append [] source []

/-- Among the delimiters are one inside a tag, one in front of a line feed and one without an
end; the first character takes two bytes. -/
theorem scans_of_broken_tags :
    let source := "é\x7b%a\x7b% if $x\n %\x7db\x7b% y\nz %\x7d\x7b%/%\x7d\x7b%".toList
    (∀ c ∈ standard.config.sourceClose.head?, isBlank c = false) ∧
      Scans standard.sourceDelimiters source 0
        [⟨2, 17, "a\x7b% if $x".toList⟩, ⟨27, 32, "/".toList⟩] ∧
      joinCuts source 0 [⟨2, 17, "a\x7b% if $x".toList⟩, ⟨27, 32, "/".toList⟩] = source := by
  intro source
  have hclosing : ∀ c ∈ standard.config.sourceClose.head?, isBlank c = false := by
    intro c hc
    obtain rfl := Option.some.inj hc
    decide
  obtain ⟨hscans, -, -, -⟩ := scans_iff_eq_places standard source hclosing
  exact ⟨hclosing, (hscans _).2 (by decide +kernel), by decide +kernel⟩

end Compiler

end TagTemplate
