import CitedAnswers.Token.Vocabulary

/-!
# The vocabulary of the command

The numbers of tokens of common English words, a few German, French, Italian, Spanish, Japanese and
Korean ones, and punctuation. Nothing but the command depends on this list: an engine is built with
any vocabulary.
-/

namespace CitedAnswers.Token.Vocabulary

/-- The vocabulary of the command. -/
def standard : Vocabulary :=
  ofGroups [
    (1, [
      "\n", "\n\n", " ", " By", " Fishing", " Morning", " Rain", " Rivers", " The", " Water",
      " Zug", " a", " again", " and", " around", " before", " blue", " boats", " carry", " catch",
      " cher", " clouds", " day", " docks", " down", " dropped", " ein", " evening", " falls",
      " fog", " for", " française", " gather", " große", " harbour", " hills", " in", " is", " it",
      " la", " lifted", " modest", " moon", " morning", " noon", " on", " over", " plan", " pulls",
      " rain", " red", " returned", " rise", " rose", " sea", " sky", " stayed", " sun", " the",
      " to", " très", " turned", " twice", " until", " waits", " wet", " when", " where", " wind",
      " with", " Über", " à", ",", ".", ".\n", ".\n\n", "By", "Morning", "Rain", "The", "Water",
      "a", "and", "before", "boats", "in", "is", "it", "line", "moon", "on", "over", "rain", "red",
      "sea", "sky", "sun", "the", "to", "until", "when", "where", "wind", "with", "é"]),
    (2, [
      " Sailors", " Straßen", " Tides", " crème", " señor", " Ça", "Fishing", "Rivers", "Tides",
      "evening", "fog", "harbour", "morning", "waits", "wet", "Ça", "Über", "日本", "안",
      "안다"]),
    (3, [
      " coûte", " fährt", "Caffè", "Sailors"]),
    (4, [
      " brûlée"])]

theorem sparing_standard : standard.Sparing := sparing_ofGroups (by decide +kernel)

end CitedAnswers.Token.Vocabulary
