/-! Faults are what no rule of the engine answers for: texts that the readers below it refuse in
ways of their own. They leave every operation as they are. -/
namespace FlagEngine

inductive Fault
  /-- A repetition count in a pattern that no text could use up. -/
  | repetitionTooLarge
  /-- A pattern asks for two alphabets at once. -/
  | contradictoryOptions
  /-- More digits than an integer may have. -/
  | overlongInteger
  | malformedUrl
  | notUtf8
  /-- No file can have such a name. -/
  | nulInPath
  | nameTooLong
  /-- Half of a pair of code units, which makes no character alone. -/
  | loneHalf
  /-- Lists and mappings within one another, more than there is room for. -/
  | nestedTooDeep
  | impossibleDate
  /-- A text tagged as an integer or a number that is none. -/
  | notANumber
  /-- A number in base sixty with more places than a double can weigh. -/
  | tooManySixties
  /-- A text tagged as a truth value that is none. -/
  | notATruthValue
  /-- An integer tag on nothing. -/
  | emptyNumber
  /-- A text tagged as a point in time that is none. -/
  | notATimestamp
  /-- A point in time in the form of a mapping. -/
  | mappedTimestamp
  /-- A collection that is part of itself. -/
  | endlessCollection
  /-- A logging level that names a setting of another kind. -/
  | levelIsText
  | levelIsTable
  /-- A character code above all characters, or above all codes. -/
  | impossibleCharacter
  | hugeCharacter
  deriving DecidableEq, Repr

end FlagEngine
