import OiUserland.Fetch.Checks

namespace OiUserland.Fetch.NamePatterns

open Lib.Regexes Lib.Patterns FindHash

variable {p p' : Parser} {c : Char} {r : Regex} {name : List Char}

def marker : Regex := .chars false [('*', '*'), (' ', ' ')]

end OiUserland.Fetch.NamePatterns
