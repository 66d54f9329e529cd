import ChipEight.Proofs.Screen.Clipping

/-!
# Sprites in any order

Drawing a sprite turns over the pixels under it and nothing else, so a drawing is known by how
often each pixel is turned over. `Drawn s l out` is what a drawing comes to whose pixels are those
of the list `l`: the pixels are turned over, and the spare bits at the end of a row are as they
were. Both are needed, since bytes are compared and a screen may have any spare bits on. The
lists of drawings that follow each other are joined (`Drawn.append`), and what is drawn depends on
the list only by its counts (`Drawn.unique`).

From the one sprite (`draw?_drawn`) this goes to any number of them (`drawAll?_drawn`). Sprites in
another order have the same counts; a sprite drawn twice has only even ones.
-/

namespace ChipEight.Screen

/-- A sprite and the place of its top left corner. -/
structure Stamp where
  x : Nat
  y : Nat
  sprite : List UInt8

/-- Draws sprites one after the other, and tells whether a pixel went out with one of them. -/
def drawAll? : List Stamp → Screen → Option (Screen × Bool)
  | [], s => some (s, false)
  | k :: rest, s => do
    let (s, hit) ← s.draw? k.x k.y k.sprite
    let (s, more) ← drawAll? rest s
    some (s, hit || more)

/-- The pixels under sprites, on a screen without edges. -/
def stampPixels (calls : List Stamp) : List (Nat × Nat) :=
  calls.flatMap fun k => spritePixels k.x k.y k.sprite

/-! ## What a drawing comes to -/

/-- `out` is the screen `s` with the pixels of `l` turned over and nothing else in the buffer
changed, and whether one of them went out. -/
structure Drawn (s : Screen) (l : List (Nat × Nat)) (out : Screen × Bool) : Prop where
  flipped : Flipped s l out
  spare : SameSpare s out.1

namespace Drawn

variable {s : Screen} {l l' : List (Nat × Nat)} {out out' : Screen × Bool}

theorem nil (s : Screen) : Drawn s [] (s, false) :=
  ⟨.nil s, .refl s⟩

theorem append (h : Drawn s l out) (h' : Drawn out.1 l' out') :
    Drawn s (l ++ l') (out'.1, out.2 || out'.2) :=
  ⟨h.flipped.append h'.flipped, h.spare.trans h'.spare⟩

/-- A pixel that is turned over twice is as it was, so the bytes a drawing leaves depend on its list
only by which pixels are in it an odd number of times. -/
theorem screen_eq (h : Drawn s l out) (h' : Drawn s l' out')
    (hl : ∀ p q, p < s.width → q < s.height → l.count (p, q) % 2 = l'.count (p, q) % 2) :
    out.1 = out'.1 := by
  obtain ⟨hflip, hspare⟩ := h
  obtain ⟨hflip', hspare'⟩ := h'
  have hw : out.1.width = out'.1.width := hspare.width.trans hspare'.width.symm
  have hh : out.1.height = out'.1.height := hspare.height.trans hspare'.height.symm
  refine eq_of_buffer hw hh (SameSpare.buffer_eq ⟨hw.symm, hh.symm, fun c y hc hrow hy => ?spare⟩
    fun p q hp hq => ?pixel)
  case spare =>
    rw [hspare.width] at hc hrow
    rw [hspare.height] at hy
    rw [index_of_width hspare.width, hspare.spare c y hc hrow hy, hspare'.spare c y hc hrow hy]
  case pixel =>
    rw [hspare.width] at hp
    rw [hspare.height] at hq
    rw [hflip.pixel hp hq, hflip'.pixel hp hq, hl p q hp hq]

/-- Drawings that turn each pixel of the screen over equally often leave the same bytes, and tell
the same. -/
theorem unique (h : Drawn s l out) (h' : Drawn s l' out')
    (hl : ∀ p q, p < s.width → q < s.height → l.count (p, q) = l'.count (p, q)) : out = out' := by
  have hscreen := h.screen_eq h' fun p q hp hq => congrArg (· % 2) (hl p q hp hq)
  have hhit := (h.flipped.congr hl).hit.trans h'.flipped.hit.symm
  exact Prod.ext hscreen (Bool.eq_iff_iff.mpr hhit)

end Drawn

/-! ## Sprites -/

theorem draw?_drawn (s : Screen) {x y : Nat} {sprite : List UInt8}
    (hy : y + sprite.length ≤ wordLimit) :
    ∃ out, s.draw? x y sprite = some out ∧ Drawn s (spritePixels x y sprite) out := by
  by_cases hx : x < s.width
  case pos =>
    obtain ⟨out, hout, hflip⟩ := drawRows?_flipped sprite y s hx hy
    have hdraw : s.draw? x y sprite = some out := (if_pos hx).trans hout
    exact ⟨out, hdraw, hflip, sameSpare_of_draw? hdraw⟩
  case neg =>
    refine ⟨(s, false), if_neg hx, (Flipped.nil s).congr fun p q hp _ => ?_, .refl s⟩
    have hoff : (p, q) ∉ spritePixels x y sprite := by
      intro hmem
      have hle := (mem_spritePixels hmem).1
      omega
    rw [List.count_nil, List.count_eq_zero_of_not_mem hoff]

theorem drawAll?_drawn : ∀ (calls : List Stamp) (s : Screen),
    (∀ k ∈ calls, k.y + k.sprite.length ≤ wordLimit) →
      ∃ out, drawAll? calls s = some out ∧ Drawn s (stampPixels calls) out
  | [], s, _ => ⟨_, rfl, .nil s⟩
  | k :: rest, s, h => by
      obtain ⟨mid, hmid, hfirst⟩ := s.draw?_drawn (x := k.x) (h k List.mem_cons_self)
      obtain ⟨out, hout, hrest⟩ := drawAll?_drawn rest mid.1 fun j hj =>
        h j (List.mem_cons_of_mem _ hj)
      refine ⟨(out.1, mid.2 || out.2), ?_, hfirst.append hrest⟩
      rw [drawAll?, hmid]
      simp only [Option.bind_eq_bind, Option.bind_some, hout]

/-- Sprites can be drawn in any order: the bytes that are left are the same, and so is whether a
pixel went out with one of them. A sprite that is drawn twice leaves every byte as it was; the
second time a pixel goes out exactly if, under a set bit of the sprite, a pixel of the screen was
off at first. -/
theorem drawAll?_reordered (s : Screen) :
    (∀ calls calls' : List Stamp, calls.Perm calls' →
      (∀ k ∈ calls, k.y + k.sprite.length ≤ 2 ^ 64) →
        ∃ t hit, drawAll? calls s = some (t, hit) ∧ drawAll? calls' s = some (t, hit)) ∧
    ∀ (x y : Nat) (sprite : List UInt8), y + sprite.length ≤ 2 ^ 64 →
      ∃ t hit hit', s.draw? x y sprite = some (t, hit) ∧ t.draw? x y sprite = some (s, hit') ∧
        (hit' = true ↔ ∃ p q, p < s.width ∧ q < s.height ∧ Covers x y sprite p q ∧
          s.pixel p q = false) := by
  refine ⟨fun calls calls' hperm hfits => ?order, fun x y sprite hfits => ?twice⟩
  case order =>
    obtain ⟨out, hout, hdrawn⟩ := drawAll?_drawn calls s hfits
    obtain ⟨out', hout', hdrawn'⟩ := drawAll?_drawn calls' s fun k hk =>
      hfits k (hperm.mem_iff.mpr hk)
    have hcount := (hperm.flatMap_right fun k => spritePixels k.x k.y k.sprite).count_eq
    obtain rfl := hdrawn.unique hdrawn' fun p q _ _ => hcount (p, q)
    exact ⟨out.1, out.2, hout, hout'⟩
  case twice =>
    obtain ⟨mid, hmid, hfirst⟩ := s.draw?_drawn (x := x) hfits
    obtain ⟨out, hout, hsecond⟩ := mid.1.draw?_drawn (x := x) hfits
    have hback : out.1 = s := (hfirst.append hsecond).screen_eq (.nil s) fun p q _ _ => by
      rw [List.count_append, List.count_nil]
      omega
    refine ⟨mid.1, mid.2, out.2, hmid, hout.trans (congrArg (fun u => some (u, out.2)) hback), ?_⟩
    rw [hsecond.flipped.hit, hfirst.flipped.width, hfirst.flipped.height]
    refine exists_congr fun p => exists_congr fun q => and_congr_right fun hp =>
      and_congr_right fun hq => ?_
    rw [hfirst.flipped.pixel hp hq, count_spritePixels]
    by_cases hcovers : Covers x y sprite p q
    · -- a pixel that is covered is on after the first time if it was off before
      simp [hcovers]
    · simp [hcovers]

/-- On the screen with stray bits, two sprites that overlap at different alignments and one that
hangs over the corner come to the same in both orders, and the one over the corner is undone by
drawing it again: two of the three pixels under it had been off. -/
theorem drawAll?_reordered_frayed :
    (∃ t hit, drawAll? [⟨3, 0, [0xff, 0x3c]⟩, ⟨8, 0, [0x81]⟩, ⟨9, 1, [0xff, 0xff]⟩] frayed =
        some (t, hit) ∧
      drawAll? [⟨9, 1, [0xff, 0xff]⟩, ⟨3, 0, [0xff, 0x3c]⟩, ⟨8, 0, [0x81]⟩] frayed =
        some (t, hit)) ∧
    ∃ t hit, frayed.draw? 9 1 [0xff, 0xff] = some (t, hit) ∧
      t.draw? 9 1 [0xff, 0xff] = some (frayed, true) := by
  obtain ⟨horder, htwice⟩ := drawAll?_reordered frayed
  refine ⟨horder _ _ (@List.perm_append_comm _ [_, _] [_]) ?_, ?_⟩
  · simp
  · obtain ⟨t, hit, hit', hfirst, hsecond, hlit⟩ := htwice 9 1 [0xff, 0xff] (by decide)
    have hlit : hit' = true := hlit.mpr ⟨9, 1, by decide⟩
    exact ⟨t, hit, hfirst, hlit ▸ hsecond⟩

end ChipEight.Screen
