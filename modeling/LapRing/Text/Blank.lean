import LapRing.Text.CodeRange

/-!
# Blank characters

Characters that leave nothing to see: blanks other than the space, separators of
lines and paragraphs, control and format characters, fillers and other characters
that a display may ignore, and those for private use. The ranges are those of
version 17 of the Unicode standard.
-/
namespace LapRing.Text

/-- Categories Cc, Cf, Co, Zl, Zp and Zs and property
Default_Ignorable_Code_Point, without the space and without category Cn. -/
def blankRanges : List CodeRange := CodeRange.ofPairs
  [ (0x0, 0x1f), (0x7f, 0xa0), (0xad, 0xad), (0x34f, 0x34f), (0x600, 0x605), (0x61c, 0x61c),
    (0x6dd, 0x6dd), (0x70f, 0x70f), (0x890, 0x891), (0x8e2, 0x8e2), (0x115f, 0x1160),
    (0x1680, 0x1680), (0x17b4, 0x17b5), (0x180b, 0x180f), (0x2000, 0x200f),
    (0x2028, 0x202f), (0x205f, 0x2064), (0x2066, 0x206f), (0x3000, 0x3000),
    (0x3164, 0x3164), (0xe000, 0xf8ff), (0xfe00, 0xfe0f), (0xfeff, 0xfeff),
    (0xffa0, 0xffa0), (0xfff9, 0xfffb), (0x110bd, 0x110bd), (0x110cd, 0x110cd),
    (0x13430, 0x1343f), (0x1bca0, 0x1bca3), (0x1d173, 0x1d17a), (0xe0001, 0xe0001),
    (0xe0020, 0xe007f), (0xe0100, 0xe01ef), (0xf0000, 0xffffd), (0x100000, 0x10fffd) ]

theorem ascending_blankRanges : CodeRange.ascending blankRanges = true := by decide +kernel

/-- Whether a character other than the space leaves nothing to see. -/
def isBlank (c : Char) : Bool := CodeRange.cover blankRanges c

end LapRing.Text
