/-!
# Character classes for text segmentation

The classes of characters that the rules of text segmentation speak of: one for grapheme clusters,
one for words, one for sentences. The tables list ranges of code points in ascending order for the
scripts Latin, Greek, Cyrillic, Hebrew, Arabic, Devanagari, Hangul, kana and Han, for punctuation
and for pictographs; a code point that no range covers is in the class of all other characters.

Two regularities are kept out of the tables: a Hangul syllable has a final consonant unless its
place in the block is divisible by 28, and in some blocks capital and small letters alternate.
-/

namespace CitedAnswers.Unicode

/-- Classes of the grapheme cluster rules. Consonants are those of a script whose consonants join
across a virama; pictographs join across a zero-width joiner. -/
inductive GraphemeClass where
  | cr | lf | control | extend | zwj | regionalIndicator | prepend | spacingMark
  | hangulL | hangulV | hangulT | hangulLV | hangulLVT
  | consonant | pictographic | other
deriving DecidableEq, Repr, Inhabited

/-- Classes of the word rules. -/
inductive WordClass where
  | cr | lf | newline | extend | zwj | format | katakana | hebrewLetter | letter
  | singleQuote | doubleQuote | midNumLet | midLetter | midNum | numeric | extendNumLet
  | regionalIndicator | segmentSpace | other
deriving DecidableEq, Repr, Inhabited

/-- Classes of the sentence rules. -/
inductive SentenceClass where
  | cr | lf | separator | extend | format | space | lower | upper | caseless | numeric
  | ambiguousStop | fullStop | continuing | closing | other
deriving DecidableEq, Repr, Inhabited

/-- The class of the range that covers a code point, in a table of ascending ranges. -/
def lookUp {α : Type} (n : Nat) : List (Nat × Nat × α) → Option α
  | [] => none
  | (low, high, a) :: rs => if n < low then none else if n ≤ high then some a else lookUp n rs

/-- Ranges of the grapheme cluster classes. -/
def graphemeRanges : List (Nat × Nat × GraphemeClass) := [
  (0x0000, 0x0009, .control), (0x000A, 0x000A, .lf), (0x000B, 0x000C, .control),
  (0x000D, 0x000D, .cr), (0x000E, 0x001F, .control), (0x007F, 0x009F, .control),
  (0x00A9, 0x00A9, .pictographic), (0x00AD, 0x00AD, .control), (0x00AE, 0x00AE, .pictographic),
  (0x0300, 0x036F, .extend), (0x0483, 0x0489, .extend), (0x0591, 0x05BD, .extend),
  (0x05BF, 0x05BF, .extend), (0x05C1, 0x05C2, .extend), (0x05C4, 0x05C5, .extend),
  (0x05C7, 0x05C7, .extend), (0x0600, 0x0605, .prepend), (0x0610, 0x061A, .extend),
  (0x061C, 0x061C, .control), (0x064B, 0x065F, .extend), (0x0670, 0x0670, .extend),
  (0x06D6, 0x06DC, .extend), (0x06DD, 0x06DD, .prepend), (0x06DF, 0x06E4, .extend),
  (0x06E7, 0x06E8, .extend), (0x06EA, 0x06ED, .extend), (0x0900, 0x0902, .extend),
  (0x0903, 0x0903, .spacingMark), (0x0915, 0x0939, .consonant), (0x093A, 0x093A, .extend),
  (0x093B, 0x093B, .spacingMark), (0x093C, 0x093C, .extend), (0x093E, 0x0940, .spacingMark),
  (0x0941, 0x0948, .extend), (0x0949, 0x094C, .spacingMark), (0x094D, 0x094D, .extend),
  (0x094E, 0x094F, .spacingMark), (0x0951, 0x0957, .extend), (0x0958, 0x095F, .consonant),
  (0x0962, 0x0963, .extend), (0x0978, 0x097F, .consonant), (0x1100, 0x115F, .hangulL),
  (0x1160, 0x11A7, .hangulV), (0x11A8, 0x11FF, .hangulT), (0x1AB0, 0x1ACE, .extend),
  (0x1DC0, 0x1DFF, .extend), (0x200B, 0x200B, .control), (0x200C, 0x200C, .extend),
  (0x200D, 0x200D, .zwj), (0x200E, 0x200F, .control), (0x2028, 0x202E, .control),
  (0x203C, 0x203C, .pictographic), (0x2049, 0x2049, .pictographic), (0x2060, 0x206F, .control),
  (0x20D0, 0x20F0, .extend), (0x2122, 0x2122, .pictographic), (0x2139, 0x2139, .pictographic),
  (0x2194, 0x2199, .pictographic), (0x21A9, 0x21AA, .pictographic),
  (0x231A, 0x231B, .pictographic), (0x2328, 0x2328, .pictographic),
  (0x2388, 0x2388, .pictographic), (0x23CF, 0x23CF, .pictographic),
  (0x23E9, 0x23F3, .pictographic), (0x23F8, 0x23FA, .pictographic),
  (0x24C2, 0x24C2, .pictographic), (0x25AA, 0x25AB, .pictographic),
  (0x25B6, 0x25B6, .pictographic), (0x25C0, 0x25C0, .pictographic),
  (0x25FB, 0x25FE, .pictographic), (0x2600, 0x2605, .pictographic),
  (0x2607, 0x2612, .pictographic), (0x2614, 0x2685, .pictographic),
  (0x2690, 0x2705, .pictographic), (0x2708, 0x2712, .pictographic),
  (0x2714, 0x2714, .pictographic), (0x2716, 0x2716, .pictographic),
  (0x271D, 0x271D, .pictographic), (0x2721, 0x2721, .pictographic),
  (0x2728, 0x2728, .pictographic), (0x2733, 0x2734, .pictographic),
  (0x2744, 0x2744, .pictographic), (0x2747, 0x2747, .pictographic),
  (0x274C, 0x274C, .pictographic), (0x274E, 0x274E, .pictographic),
  (0x2753, 0x2755, .pictographic), (0x2757, 0x2757, .pictographic),
  (0x2763, 0x2767, .pictographic), (0x2795, 0x2797, .pictographic),
  (0x27A1, 0x27A1, .pictographic), (0x27B0, 0x27B0, .pictographic),
  (0x27BF, 0x27BF, .pictographic), (0x2934, 0x2935, .pictographic),
  (0x2B05, 0x2B07, .pictographic), (0x2B1B, 0x2B1C, .pictographic),
  (0x2B50, 0x2B50, .pictographic), (0x2B55, 0x2B55, .pictographic), (0x302A, 0x302F, .extend),
  (0x3030, 0x3030, .pictographic), (0x303D, 0x303D, .pictographic), (0x3099, 0x309A, .extend),
  (0x3297, 0x3297, .pictographic), (0x3299, 0x3299, .pictographic), (0xA960, 0xA97C, .hangulL),
  (0xD7B0, 0xD7C6, .hangulV), (0xD7CB, 0xD7FB, .hangulT), (0xFE00, 0xFE0F, .extend),
  (0xFE20, 0xFE2F, .extend), (0xFEFF, 0xFEFF, .control), (0xFFF0, 0xFFFB, .control),
  (0x1F000, 0x1F0FF, .pictographic), (0x1F10D, 0x1F10F, .pictographic),
  (0x1F12F, 0x1F12F, .pictographic), (0x1F16C, 0x1F171, .pictographic),
  (0x1F17E, 0x1F17F, .pictographic), (0x1F18E, 0x1F18E, .pictographic),
  (0x1F191, 0x1F19A, .pictographic), (0x1F1AD, 0x1F1E5, .pictographic),
  (0x1F1E6, 0x1F1FF, .regionalIndicator), (0x1F201, 0x1F20F, .pictographic),
  (0x1F21A, 0x1F21A, .pictographic), (0x1F22F, 0x1F22F, .pictographic),
  (0x1F232, 0x1F23A, .pictographic), (0x1F23C, 0x1F23F, .pictographic),
  (0x1F249, 0x1F3FA, .pictographic), (0x1F3FB, 0x1F3FF, .extend),
  (0x1F400, 0x1F53D, .pictographic), (0x1F546, 0x1F64F, .pictographic),
  (0x1F680, 0x1F6FF, .pictographic), (0x1F774, 0x1F77F, .pictographic),
  (0x1F7D5, 0x1F7FF, .pictographic), (0x1F80C, 0x1F80F, .pictographic),
  (0x1F848, 0x1F84F, .pictographic), (0x1F85A, 0x1F85F, .pictographic),
  (0x1F888, 0x1F88F, .pictographic), (0x1F8AE, 0x1F8FF, .pictographic),
  (0x1F90C, 0x1F93A, .pictographic), (0x1F93C, 0x1F945, .pictographic),
  (0x1F947, 0x1FAFF, .pictographic), (0x1FC00, 0x1FFFD, .pictographic),
  (0xE0020, 0xE007F, .extend), (0xE0100, 0xE01EF, .extend)]

/-- Ranges of the word classes. -/
def wordRanges : List (Nat × Nat × WordClass) := [
  (0x000A, 0x000A, .lf), (0x000B, 0x000C, .newline), (0x000D, 0x000D, .cr),
  (0x0020, 0x0020, .segmentSpace), (0x0022, 0x0022, .doubleQuote), (0x0027, 0x0027, .singleQuote),
  (0x002C, 0x002C, .midNum), (0x002E, 0x002E, .midNumLet), (0x0030, 0x0039, .numeric),
  (0x003A, 0x003A, .midLetter), (0x003B, 0x003B, .midNum), (0x0041, 0x005A, .letter),
  (0x005F, 0x005F, .extendNumLet), (0x0061, 0x007A, .letter), (0x0085, 0x0085, .newline),
  (0x00AA, 0x00AA, .letter), (0x00AD, 0x00AD, .format), (0x00B5, 0x00B5, .letter),
  (0x00B7, 0x00B7, .midLetter), (0x00BA, 0x00BA, .letter), (0x00C0, 0x00D6, .letter),
  (0x00D8, 0x00F6, .letter), (0x00F8, 0x02D7, .letter), (0x02DE, 0x02FF, .letter),
  (0x0300, 0x036F, .extend), (0x0370, 0x0374, .letter), (0x0376, 0x0377, .letter),
  (0x037A, 0x037D, .letter), (0x037E, 0x037E, .midNum), (0x037F, 0x037F, .letter),
  (0x0386, 0x0386, .letter), (0x0387, 0x0387, .midLetter), (0x0388, 0x038A, .letter),
  (0x038C, 0x038C, .letter), (0x038E, 0x03A1, .letter), (0x03A3, 0x03F5, .letter),
  (0x03F7, 0x0481, .letter), (0x0483, 0x0489, .extend), (0x048A, 0x052F, .letter),
  (0x0531, 0x0556, .letter), (0x0559, 0x055C, .letter), (0x055E, 0x055E, .letter),
  (0x055F, 0x055F, .midLetter), (0x0560, 0x0588, .letter), (0x0589, 0x0589, .midNum),
  (0x058A, 0x058A, .letter), (0x0591, 0x05BD, .extend), (0x05BF, 0x05BF, .extend),
  (0x05C1, 0x05C2, .extend), (0x05C4, 0x05C5, .extend), (0x05C7, 0x05C7, .extend),
  (0x05D0, 0x05EA, .hebrewLetter), (0x05EF, 0x05F2, .hebrewLetter), (0x05F4, 0x05F4, .midLetter),
  (0x0600, 0x0605, .numeric), (0x060C, 0x060D, .midNum), (0x0610, 0x061A, .extend),
  (0x061C, 0x061C, .format), (0x0620, 0x064A, .letter), (0x064B, 0x065F, .extend),
  (0x0660, 0x0669, .numeric), (0x066B, 0x066B, .numeric), (0x066C, 0x066C, .midNum),
  (0x066E, 0x066F, .letter), (0x0670, 0x0670, .extend), (0x0671, 0x06D3, .letter),
  (0x06D5, 0x06D5, .letter), (0x06D6, 0x06DC, .extend), (0x06DD, 0x06DD, .numeric),
  (0x06DF, 0x06E4, .extend), (0x06E5, 0x06E6, .letter), (0x06E7, 0x06E8, .extend),
  (0x06EA, 0x06ED, .extend), (0x06EE, 0x06EF, .letter), (0x06F0, 0x06F9, .numeric),
  (0x06FA, 0x06FC, .letter), (0x06FF, 0x06FF, .letter), (0x0900, 0x0903, .extend),
  (0x0904, 0x0939, .letter), (0x093A, 0x093C, .extend), (0x093D, 0x093D, .letter),
  (0x093E, 0x094F, .extend), (0x0950, 0x0950, .letter), (0x0951, 0x0957, .extend),
  (0x0958, 0x0961, .letter), (0x0962, 0x0963, .extend), (0x0966, 0x096F, .numeric),
  (0x0971, 0x0980, .letter), (0x1100, 0x11FF, .letter), (0x1680, 0x1680, .segmentSpace),
  (0x1AB0, 0x1ACE, .extend), (0x1DC0, 0x1DFF, .extend), (0x1E00, 0x1F15, .letter),
  (0x1F18, 0x1F1D, .letter), (0x1F20, 0x1F45, .letter), (0x1F48, 0x1F4D, .letter),
  (0x1F50, 0x1F57, .letter), (0x1F5F, 0x1F7D, .letter), (0x1F80, 0x1FB4, .letter),
  (0x1FB6, 0x1FBC, .letter), (0x1FC2, 0x1FC4, .letter), (0x1FC6, 0x1FCC, .letter),
  (0x1FD0, 0x1FD3, .letter), (0x1FD6, 0x1FDB, .letter), (0x1FE0, 0x1FEC, .letter),
  (0x1FF2, 0x1FF4, .letter), (0x1FF6, 0x1FFC, .letter), (0x2000, 0x2006, .segmentSpace),
  (0x2008, 0x200A, .segmentSpace), (0x200C, 0x200C, .extend), (0x200D, 0x200D, .zwj),
  (0x200E, 0x200F, .format), (0x2018, 0x2019, .midNumLet), (0x2024, 0x2024, .midNumLet),
  (0x2027, 0x2027, .midLetter), (0x2028, 0x2029, .newline), (0x202A, 0x202E, .format),
  (0x202F, 0x202F, .extendNumLet), (0x203F, 0x2040, .extendNumLet), (0x2044, 0x2044, .midNum),
  (0x2054, 0x2054, .extendNumLet), (0x205F, 0x205F, .segmentSpace), (0x2060, 0x2064, .format),
  (0x2066, 0x206F, .format), (0x20D0, 0x20F0, .extend), (0x3000, 0x3000, .segmentSpace),
  (0x302A, 0x302F, .extend), (0x3031, 0x3035, .katakana), (0x3099, 0x309A, .extend),
  (0x309B, 0x309C, .katakana), (0x30A0, 0x30FA, .katakana), (0x30FC, 0x30FF, .katakana),
  (0x3105, 0x312F, .letter), (0x3131, 0x318E, .letter), (0x31A0, 0x31BF, .letter),
  (0x31F0, 0x31FF, .katakana), (0x32D0, 0x32FE, .katakana), (0x3300, 0x3357, .katakana),
  (0xA960, 0xA97C, .letter), (0xAC00, 0xD7A3, .letter), (0xD7B0, 0xD7C6, .letter),
  (0xD7CB, 0xD7FB, .letter), (0xFB1D, 0xFB1D, .hebrewLetter), (0xFB1F, 0xFB28, .hebrewLetter),
  (0xFB2A, 0xFB36, .hebrewLetter), (0xFB38, 0xFB3C, .hebrewLetter),
  (0xFB3E, 0xFB3E, .hebrewLetter), (0xFB40, 0xFB41, .hebrewLetter),
  (0xFB43, 0xFB44, .hebrewLetter), (0xFB46, 0xFB4F, .hebrewLetter), (0xFE00, 0xFE0F, .extend),
  (0xFE10, 0xFE10, .midNum), (0xFE13, 0xFE13, .midLetter), (0xFE14, 0xFE14, .midNum),
  (0xFE20, 0xFE2F, .extend), (0xFE33, 0xFE34, .extendNumLet), (0xFE4D, 0xFE4F, .extendNumLet),
  (0xFE50, 0xFE50, .midNum), (0xFE52, 0xFE52, .midNumLet), (0xFE54, 0xFE54, .midNum),
  (0xFE55, 0xFE55, .midLetter), (0xFEFF, 0xFEFF, .format), (0xFF07, 0xFF07, .midNumLet),
  (0xFF0C, 0xFF0C, .midNum), (0xFF0E, 0xFF0E, .midNumLet), (0xFF10, 0xFF19, .numeric),
  (0xFF1A, 0xFF1A, .midLetter), (0xFF1B, 0xFF1B, .midNum), (0xFF21, 0xFF3A, .letter),
  (0xFF3F, 0xFF3F, .extendNumLet), (0xFF41, 0xFF5A, .letter), (0xFF66, 0xFF9D, .katakana),
  (0xFFA0, 0xFFBE, .letter), (0xFFF9, 0xFFFB, .format), (0x1F1E6, 0x1F1FF, .regionalIndicator),
  (0x1F3FB, 0x1F3FF, .extend), (0xE0020, 0xE007F, .extend), (0xE0100, 0xE01EF, .extend)]

/-- Ranges of the sentence classes, letters of alternating case left out. -/
def sentenceRanges : List (Nat × Nat × SentenceClass) := [
  (0x0009, 0x0009, .space), (0x000A, 0x000A, .lf), (0x000B, 0x000C, .space),
  (0x000D, 0x000D, .cr), (0x0020, 0x0020, .space), (0x0021, 0x0021, .fullStop),
  (0x0022, 0x0022, .closing), (0x0027, 0x0029, .closing), (0x002C, 0x002D, .continuing),
  (0x002E, 0x002E, .ambiguousStop), (0x0030, 0x0039, .numeric), (0x003A, 0x003B, .continuing),
  (0x003F, 0x003F, .fullStop), (0x0041, 0x005A, .upper), (0x005B, 0x005B, .closing),
  (0x005D, 0x005D, .closing), (0x0061, 0x007A, .lower), (0x007B, 0x007B, .closing),
  (0x007D, 0x007D, .closing), (0x0085, 0x0085, .separator), (0x00A0, 0x00A0, .space),
  (0x00AA, 0x00AA, .lower), (0x00AB, 0x00AB, .closing), (0x00AD, 0x00AD, .format),
  (0x00B5, 0x00B5, .lower), (0x00BA, 0x00BA, .lower), (0x00BB, 0x00BB, .closing),
  (0x00C0, 0x00D6, .upper), (0x00D8, 0x00DE, .upper), (0x00DF, 0x00F6, .lower),
  (0x00F8, 0x00FF, .lower), (0x0130, 0x0130, .upper), (0x0131, 0x0131, .lower),
  (0x0138, 0x0138, .lower), (0x0149, 0x0149, .lower), (0x0178, 0x0178, .upper),
  (0x017F, 0x017F, .lower), (0x01BB, 0x01BB, .caseless), (0x01C0, 0x01C3, .caseless),
  (0x0294, 0x0294, .caseless), (0x0300, 0x036F, .extend), (0x037E, 0x037E, .continuing),
  (0x0386, 0x0386, .upper), (0x0388, 0x038A, .upper), (0x038C, 0x038C, .upper),
  (0x038E, 0x038F, .upper), (0x0390, 0x0390, .lower), (0x0391, 0x03A1, .upper),
  (0x03A3, 0x03AB, .upper), (0x03AC, 0x03CE, .lower), (0x0400, 0x042F, .upper),
  (0x0430, 0x045F, .lower), (0x0483, 0x0489, .extend), (0x04C0, 0x04C0, .upper),
  (0x04CF, 0x04CF, .lower), (0x0531, 0x0556, .upper), (0x055D, 0x055D, .continuing),
  (0x0560, 0x0588, .lower), (0x0589, 0x0589, .fullStop), (0x0591, 0x05BD, .extend),
  (0x05BF, 0x05BF, .extend), (0x05C1, 0x05C2, .extend), (0x05C4, 0x05C5, .extend),
  (0x05C7, 0x05C7, .extend), (0x05D0, 0x05EA, .caseless), (0x05EF, 0x05F3, .caseless),
  (0x0600, 0x0605, .numeric), (0x060C, 0x060D, .continuing), (0x0610, 0x061A, .extend),
  (0x061C, 0x061C, .format), (0x061D, 0x061F, .fullStop), (0x0620, 0x064A, .caseless),
  (0x064B, 0x065F, .extend), (0x0660, 0x0669, .numeric), (0x066B, 0x066C, .numeric),
  (0x066E, 0x066F, .caseless), (0x0670, 0x0670, .extend), (0x0671, 0x06D3, .caseless),
  (0x06D4, 0x06D4, .fullStop), (0x06D5, 0x06D5, .caseless), (0x06D6, 0x06DC, .extend),
  (0x06DD, 0x06DD, .numeric), (0x06DF, 0x06E4, .extend), (0x06E5, 0x06E6, .caseless),
  (0x06E7, 0x06E8, .extend), (0x06EA, 0x06ED, .extend), (0x06EE, 0x06EF, .caseless),
  (0x06F0, 0x06F9, .numeric), (0x06FA, 0x06FC, .caseless), (0x06FF, 0x06FF, .caseless),
  (0x0900, 0x0903, .extend), (0x0904, 0x0939, .caseless), (0x093A, 0x093C, .extend),
  (0x093D, 0x093D, .caseless), (0x093E, 0x094F, .extend), (0x0950, 0x0950, .caseless),
  (0x0951, 0x0957, .extend), (0x0958, 0x0961, .caseless), (0x0962, 0x0963, .extend),
  (0x0964, 0x0965, .fullStop), (0x0966, 0x096F, .numeric), (0x0971, 0x0980, .caseless),
  (0x1100, 0x11FF, .caseless), (0x1680, 0x1680, .space), (0x1AB0, 0x1ACE, .extend),
  (0x1DC0, 0x1DFF, .extend), (0x1E96, 0x1E9D, .lower), (0x1F00, 0x1F07, .lower),
  (0x1F08, 0x1F0F, .upper), (0x1F10, 0x1F15, .lower), (0x1F18, 0x1F1D, .upper),
  (0x1F20, 0x1F27, .lower), (0x1F28, 0x1F2F, .upper), (0x1F30, 0x1F37, .lower),
  (0x1F38, 0x1F3F, .upper), (0x1F40, 0x1F45, .lower), (0x1F48, 0x1F4D, .upper),
  (0x1F60, 0x1F67, .lower), (0x1F68, 0x1F6F, .upper), (0x1F70, 0x1F7D, .lower),
  (0x2000, 0x200A, .space), (0x200B, 0x200B, .format), (0x200C, 0x200D, .extend),
  (0x200E, 0x200F, .format), (0x2013, 0x2014, .continuing), (0x2018, 0x201F, .closing),
  (0x2024, 0x2024, .ambiguousStop), (0x2028, 0x2029, .separator), (0x202A, 0x202E, .format),
  (0x202F, 0x202F, .space), (0x2039, 0x203A, .closing), (0x203C, 0x203D, .fullStop),
  (0x2045, 0x2046, .closing), (0x2047, 0x2049, .fullStop), (0x205F, 0x205F, .space),
  (0x2060, 0x2064, .format), (0x2066, 0x206F, .format), (0x207D, 0x207E, .closing),
  (0x208D, 0x208E, .closing), (0x20D0, 0x20F0, .extend), (0x2308, 0x230B, .closing),
  (0x2329, 0x232A, .closing), (0x275B, 0x2760, .closing), (0x2768, 0x2775, .closing),
  (0x27E6, 0x27EF, .closing), (0x2983, 0x2998, .closing), (0x29FC, 0x29FD, .closing),
  (0x2E22, 0x2E29, .closing), (0x2E2E, 0x2E2E, .fullStop), (0x3000, 0x3000, .space),
  (0x3001, 0x3001, .continuing), (0x3002, 0x3002, .fullStop), (0x3005, 0x3007, .caseless),
  (0x3008, 0x3011, .closing), (0x3014, 0x301B, .closing), (0x301D, 0x301F, .closing),
  (0x3021, 0x3029, .caseless), (0x302A, 0x302F, .extend), (0x3031, 0x3035, .caseless),
  (0x3038, 0x303C, .caseless), (0x3041, 0x3096, .caseless), (0x3099, 0x309A, .extend),
  (0x309D, 0x309F, .caseless), (0x30A1, 0x30FA, .caseless), (0x30FC, 0x30FF, .caseless),
  (0x3105, 0x312F, .caseless), (0x3131, 0x318E, .caseless), (0x31A0, 0x31BF, .caseless),
  (0x31F0, 0x31FF, .caseless), (0x3400, 0x4DBF, .caseless), (0x4E00, 0x9FFF, .caseless),
  (0xA960, 0xA97C, .caseless), (0xAC00, 0xD7A3, .caseless), (0xD7B0, 0xD7C6, .caseless),
  (0xD7CB, 0xD7FB, .caseless), (0xF900, 0xFA6D, .caseless), (0xFA70, 0xFAD9, .caseless),
  (0xFB1D, 0xFB1D, .caseless), (0xFB1F, 0xFB28, .caseless), (0xFB2A, 0xFB36, .caseless),
  (0xFB38, 0xFB3C, .caseless), (0xFB3E, 0xFB3E, .caseless), (0xFB40, 0xFB41, .caseless),
  (0xFB43, 0xFB44, .caseless), (0xFB46, 0xFB4F, .caseless), (0xFD3E, 0xFD3F, .closing),
  (0xFE00, 0xFE0F, .extend), (0xFE10, 0xFE11, .continuing), (0xFE13, 0xFE14, .continuing),
  (0xFE17, 0xFE18, .closing), (0xFE20, 0xFE2F, .extend), (0xFE31, 0xFE32, .continuing),
  (0xFE35, 0xFE44, .closing), (0xFE47, 0xFE48, .closing), (0xFE50, 0xFE51, .continuing),
  (0xFE52, 0xFE52, .ambiguousStop), (0xFE54, 0xFE55, .continuing), (0xFE56, 0xFE57, .fullStop),
  (0xFE58, 0xFE58, .continuing), (0xFE59, 0xFE5E, .closing), (0xFE63, 0xFE63, .continuing),
  (0xFEFF, 0xFEFF, .format), (0xFF01, 0xFF01, .fullStop), (0xFF08, 0xFF09, .closing),
  (0xFF0C, 0xFF0D, .continuing), (0xFF0E, 0xFF0E, .ambiguousStop), (0xFF10, 0xFF19, .numeric),
  (0xFF1A, 0xFF1B, .continuing), (0xFF1F, 0xFF1F, .fullStop), (0xFF21, 0xFF3A, .upper),
  (0xFF3B, 0xFF3B, .closing), (0xFF3D, 0xFF3D, .closing), (0xFF41, 0xFF5A, .lower),
  (0xFF5B, 0xFF5B, .closing), (0xFF5D, 0xFF5D, .closing), (0xFF5F, 0xFF60, .closing),
  (0xFF61, 0xFF61, .fullStop), (0xFF62, 0xFF63, .closing), (0xFF64, 0xFF64, .continuing),
  (0xFF66, 0xFF9D, .caseless), (0xFFA0, 0xFFBE, .caseless), (0xFFF9, 0xFFFB, .format),
  (0x20000, 0x2A6DF, .caseless), (0x2A700, 0x2EBE0, .caseless), (0x30000, 0x323AF, .caseless),
  (0xE0020, 0xE007F, .extend), (0xE0100, 0xE01EF, .extend)]

/-- Ranges in which capital and small letters alternate, with the remainder by two of the code
points of capitals. -/
def alternatingRanges : List (Nat × Nat × Nat) := [
  (0x0100, 0x012F, 0), (0x0132, 0x0137, 0), (0x0139, 0x0148, 1), (0x014A, 0x0177, 0),
  (0x0179, 0x017E, 1), (0x0460, 0x0481, 0), (0x048A, 0x04BF, 0), (0x04C1, 0x04CE, 1),
  (0x04D0, 0x052F, 0), (0x1E00, 0x1E95, 0), (0x1EA0, 0x1EFF, 0)]

/-- The Hangul syllables. -/
def isHangulSyllable (n : Nat) : Bool := decide (0xAC00 ≤ n ∧ n ≤ 0xD7A3)

/-- The class of a character in the grapheme cluster rules. -/
def graphemeClass (c : Char) : GraphemeClass :=
  if isHangulSyllable c.toNat then
    if (c.toNat - 0xAC00) % 28 = 0 then .hangulLV else .hangulLVT
  else (lookUp c.toNat graphemeRanges).getD .other

/-- The class of a character in the word rules. -/
def wordClass (c : Char) : WordClass := (lookUp c.toNat wordRanges).getD .other

/-- The class of a character in the sentence rules. -/
def sentenceClass (c : Char) : SentenceClass :=
  match lookUp c.toNat alternatingRanges with
  | some capital => if c.toNat % 2 = capital then .upper else .lower
  | none => (lookUp c.toNat sentenceRanges).getD .other

/-- The virama, which joins two consonants. -/
def isVirama (c : Char) : Bool := c == '\u094d'

/-- The pictographs. -/
def isPictographic (c : Char) : Bool := graphemeClass c == .pictographic

/-- The letters. -/
def isLetter (c : Char) : Bool :=
  match sentenceClass c with
  | .lower | .upper | .caseless => true
  | _ => false

/-- The digits. -/
def isDigit (c : Char) : Bool := sentenceClass c == .numeric && graphemeClass c != .prepend

/-- The blanks, line ends included. -/
def isBlank (c : Char) : Bool :=
  match sentenceClass c with
  | .space | .separator | .cr | .lf => true
  | _ => false

end CitedAnswers.Unicode
