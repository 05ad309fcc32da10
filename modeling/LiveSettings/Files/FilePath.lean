/-!
# Paths of files

A path is the text that a user wrote. Its components are what the text means: separators count once, and a
dot counts only at the very front. Everything here looks at the text alone and at no file.
-/

namespace LiveSettings

/-- A component of a path. -/
inductive Component where
  | root
  | current
  | parent
  | normal (name : String)
  deriving DecidableEq, Repr, Inhabited

/-- A path as it is written. -/
structure FilePath where
  text : String
  deriving DecidableEq, Repr, Inhabited

namespace FilePath

def separator : Char := '/'

/-- The stretches between separators, one more than there are separators. -/
def split : List Char → List (List Char)
  | [] => [[]]
  | c :: cs =>
    if c == separator then [] :: split cs
    else
      match split cs with
      | [] => [[c]]
      | p :: ps => (c :: p) :: ps

/-- The stretches joined by separators. -/
def joinPieces : List (List Char) → List Char
  | [] => []
  | [p] => p
  | p :: ps => p ++ separator :: joinPieces ps

def isAbsolute (p : FilePath) : Bool := p.text.toList.head? == some separator

def pieces (p : FilePath) : List (List Char) := split p.text.toList

/-- Whether a stretch behind the first one says nothing. -/
def isEmptyPiece (piece : List Char) : Bool := piece.isEmpty || piece == ['.']

def ofPiece (piece : List Char) : Component :=
  if piece == ['.', '.'] then .parent else .normal (String.ofList piece)

/-- What the path means, component by component. -/
def components (p : FilePath) : List Component :=
  match p.pieces with
  | [] => []
  | first :: rest =>
    let front : List Component :=
      if first.isEmpty then (if rest.isEmpty then [] else [.root])
      else if first == ['.'] then [.current]
      else [ofPiece first]
    front ++ (rest.filter fun piece => !isEmptyPiece piece).map ofPiece

/-- The name that the path ends in, if it ends in one. -/
def fileName? (p : FilePath) : Option String :=
  match p.components.getLast? with
  | some (.normal name) => some name
  | _ => none

/-- The stretches behind the first one without those at the end that say nothing. -/
def trimPieces (rest : List (List Char)) : List (List Char) :=
  (rest.reverse.dropWhile isEmptyPiece).reverse

/-- The path without its last component; absent if there is none to leave out. -/
def parent? (p : FilePath) : Option FilePath :=
  match p.pieces with
  | [] => none
  | first :: rest =>
    match trimPieces rest with
    | [] => if first.isEmpty then none else some ⟨""⟩
    | rest =>
      let rest := trimPieces rest.dropLast
      if first.isEmpty && rest.isEmpty then some ⟨"/"⟩
      else some ⟨String.ofList (joinPieces (first :: rest))⟩

/-- A path below another; an absolute one stands alone. -/
def join (p : FilePath) (name : String) : FilePath :=
  if (⟨name⟩ : FilePath).isAbsolute then ⟨name⟩
  else if p.text.isEmpty || p.text.toList.getLast? == some separator then ⟨p.text ++ name⟩
  else ⟨p.text ++ "/" ++ name⟩

/-- The path with another last name, or with one more name if it ends in none. -/
def withFileName (p : FilePath) (name : String) : FilePath :=
  match p.fileName?, p.parent? with
  | some _, some parent => parent.join name
  | _, _ => p.join name

/-- The path itself and what is left after leaving out components, the longest first. -/
def ancestorsLoop : Nat → FilePath → List FilePath
  | 0, p => [p]
  | fuel + 1, p => p :: (p.parent?.elim [] (ancestorsLoop fuel))

def ancestors (p : FilePath) : List FilePath := ancestorsLoop p.text.length p

/-- The components behind those of a prefix. -/
def stripPrefix? : List Component → List Component → Option (List Component)
  | [], rest => some rest
  | c :: cs, d :: ds => if c = d then stripPrefix? cs ds else none
  | _ :: _, [] => none

/-- A name without its extension: what follows the last dot, unless the dot comes first. -/
def stem (name : String) : String :=
  let cs := name.toList
  let before := (cs.reverse.dropWhile (· != '.')).drop 1
  if before.isEmpty then name else String.ofList before.reverse

end FilePath

end LiveSettings
