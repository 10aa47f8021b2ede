import Intake.Catalogue
/-!
# The standard catalogue

A message for every issue that the standard processors and kinds record, and a description of
every standard processor.
-/

namespace Intake.Catalogue

def standardMessages : Table String :=
  [ ("generic/required", "is required")
  , ("generic/forbidden", "is not allowed")
  , ("generic/equals", "must equal {expected}")
  , ("generic/one-of", "must be one of {allowed}")
  , ("generic/failed", "was rejected by {processor}")
  , ("string/type", "must be a string")
  , ("string/not-empty", "must not be empty")
  , ("string/min-length", "must be at least {min} characters long (got {actual})")
  , ("string/max-length", "must be at most {max} characters long (got {actual})")
  , ("number/type", "must be a number")
  , ("number/format", "is not a number")
  , ("number/min", "must be at least {min}")
  , ("number/max", "must be at most {max}")
  , ("number/integer", "must be a whole number")
  , ("boolean/type", "must be true or false")
  , ("boolean/format", "is not a recognised yes/no value")
  , ("date/type", "must be a date (YYYY-MM-DD)")
  , ("date/format", "does not match the date format {format}")
  , ("date/min", "must be on or after {min}")
  , ("date/max", "must be on or before {max}")
  , ("array/type", "must be a list")
  , ("array/min-items", "must have at least {min} items (got {actual})")
  , ("array/max-items", "must have at most {max} items (got {actual})")
  , ("array/unique", "contains {duplicate} more than once")
  , ("array/items", "has invalid items at {indexes}")
  , ("object/type", "must be an object")
  , ("object/members", "has invalid fields: {fields}")
  , ("object/unknown-keys", "has unknown keys: {keys}")
  , ("object/schedule", "could not be processed: {reason}") ]

def standardDescriptions : Table String :=
  [ ("equals", "equals {0}")
  , ("one-of", "one of {args}")
  , ("string/trim", "trim surrounding whitespace")
  , ("string/lowercase", "convert to lower case")
  , ("string/uppercase", "convert to upper case")
  , ("string/not-empty", "not empty")
  , ("string/min-length", "at least {0} characters")
  , ("string/max-length", "at most {0} characters")
  , ("number/parse", "parse numeric text")
  , ("number/min", "at least {0}")
  , ("number/max", "at most {0}")
  , ("number/integer", "whole number")
  , ("boolean/parse", "parse yes/no text")
  , ("date/parse", "parse date {args}")
  , ("date/min", "on or after {0}")
  , ("date/max", "on or before {0}")
  , ("array/min-items", "at least {0} items")
  , ("array/max-items", "at most {0} items")
  , ("array/unique", "no duplicates") ]

def standard : Catalogue :=
  { messages := standardMessages, descriptions := standardDescriptions }

end Intake.Catalogue
