namespace DonationLedger.Settings.Path

def components : List Char → List (List Char)
  | [] => [[]]
  | c :: cs =>
      if c == '/' then [] :: components cs
      else
        match components cs with
        | [] => [[c]]
        | part :: parts => (c :: part) :: parts

def isAbsolute (path : String) : Bool := path.toList.head? == some '/'

def rootOf (cs : List Char) : List Char :=
  match (cs.takeWhile (· == '/')).length with
  | 0 => []
  | 2 => ['/', '/']
  | _ => ['/']

def partsOf (cs : List Char) : List (List Char) :=
  (components cs).filter (fun part => part != [] && part != ['.'])

def textOf (root : List Char) (parts : List (List Char)) : String :=
  let cs := root ++ (parts.intersperse ['/']).flatten
  if cs.isEmpty then "." else String.ofList cs

def normal (path : String) : String := textOf (rootOf path.toList) (partsOf path.toList)

def join (directory path : String) : String :=
  if isAbsolute path then normal path
  else textOf (rootOf directory.toList) (partsOf directory.toList ++ partsOf path.toList)

end DonationLedger.Settings.Path
