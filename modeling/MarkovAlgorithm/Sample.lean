import MarkovAlgorithm.Machine

/-!
# Sample programs

Small programs that come with the interpreter, each with an input to try it
on.
-/

namespace MarkovAlgorithm

/-- A program with a name, a description and an input. -/
structure Sample where
  name : String
  description : String
  source : Word
  input : Word

namespace Sample

/-- A text made of lines, each ended by a line feed. -/
def text (lines : List String) : Word :=
  (lines.map fun line => line.toList ++ ['\n']).flatten

/-- Each `|` that moves right over a digit is doubled. -/
def binaryToUnary : Sample where
  name := "binary-to-unary"
  description := "convert a binary numeral to a unary tally"
  source := text ["# each | left of a 0 doubles", "|0:0||", "1:0|", "0:"]
  input := "101".toList

/-- Dropping the sign joins the two tallies. -/
def unaryAddition : Sample where
  name := "unary-addition"
  description := "add two unary numbers separated by +"
  source := text ["+::"]
  input := "||+|||".toList

/-- A cursor `#` picks up letters from left to right; each is carried to the
front, where `%` stands. -/
def reverse : Sample where
  name := "reverse"
  description := "reverse a word over the alphabet \x7ba, b\x7d"
  source := text
    ["# carry a letter left to the front",
      "aA:Aa", "bA:Ab", "aB:Ba", "bB:Bb", "%A:%a", "%B:%b",
      "# pick up the next letter after the cursor",
      "#a:A#", "#b:B#",
      "# done, drop the markers",
      "#:", "%::", ":%#"]
  input := "abbab".toList

/-- Two rules that undo each other. -/
def pingPong : Sample where
  name := "ping-pong"
  description := "swap ab and ba forever"
  source := text ["ab:ba", "ba:ab"]
  input := "ab".toList

/-- The word grows with each move. -/
def grow : Sample where
  name := "grow"
  description := "prepend x forever (never repeats, needs a step limit)"
  source := text [":x"]
  input := []

/-- All samples. -/
def all : List Sample :=
  [binaryToUnary, unaryAddition, reverse, pingPong, grow]

/-- The sample of a given name. -/
def find? (name : String) : Option Sample :=
  all.find? (·.name == name)

/-- The machine of a sample, started at a word. -/
def load (sample : Sample) (start : Word) : Except LineError Machine :=
  Machine.load sample.source start

end Sample

end MarkovAlgorithm
