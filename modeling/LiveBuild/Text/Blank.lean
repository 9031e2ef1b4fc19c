/-!
# Blank characters

The characters with the Unicode property White_Space, and the removal of blanks at both ends of a
text.

* `isBlank`: the property, as a finite list of ranges;
* `trim`: what is left between the first and the last character that is not blank.
-/

namespace LiveBuild.Text

/-- A character is blank if it has the property White_Space. -/
def isBlank (c : Char) : Bool :=
  let n := c.toNat
  (0x9 ≤ n && n ≤ 0xd) || n == 0x20 || n == 0x85 || n == 0xa0 || n == 0x1680 ||
    (0x2000 ≤ n && n ≤ 0x200a) || n == 0x2028 || n == 0x2029 || n == 0x202f || n == 0x205f ||
    n == 0x3000

/-- The text without the blanks at its end. -/
def trimRight (cs : List Char) : List Char :=
  (cs.reverse.dropWhile isBlank).reverse

/-- The text without the blanks at its two ends. -/
def trim (cs : List Char) : List Char :=
  trimRight (cs.dropWhile isBlank)

/-- A text that starts and ends with a character that is not blank is kept whole. -/
theorem trim_cons {c : Char} {cs : List Char} (hc : isBlank c = false)
    (h : isBlank ((c :: cs).getLast (List.cons_ne_nil c cs)) = false) :
    trim (c :: cs) = c :: cs := by
  have hd : (c :: cs).dropWhile isBlank = c :: cs := by simp [hc]
  have hl : (c :: cs).reverse.dropWhile isBlank = (c :: cs).reverse := by
    rw [← List.head_reverse (l := c :: cs) (by simp)] at h
    cases hr : (c :: cs).reverse with
    | nil => rfl
    | cons x xs => simp_all
  rw [trim, trimRight, hd, hl, List.reverse_reverse]

end LiveBuild.Text
