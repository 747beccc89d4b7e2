import Switchboard.Text.Ascii
import Switchboard.Text.Utf8

/-!
# Field lines

- `isFieldName`: names that may stand on a field line.
- `isFieldValue`: values that may stand there.
- `trimValue`: a value without the spaces and tabs around it.
-/

namespace Switchboard.Http

/-- The marks that a name may contain besides letters and digits. -/
def nameMarks : List Char := "!#$%&'*+-.^_\x60|~".toList

def isNameChar (c : Char) : Bool := c.isAlphanum || nameMarks.contains c

def isFieldName (s : String) : Bool := !s.isEmpty && s.toList.all isNameChar

/-- A control other than a tab would break the line or change its meaning. -/
def isValueByte (b : UInt8) : Bool := b == 9 || (32 ≤ b && b != 127)

def isFieldValue (value : List UInt8) : Bool := value.all isValueByte

/-- Values of a request go out as their UTF-8 octets. -/
def isFieldText (s : String) : Bool := isFieldValue (Text.Utf8.encode s)

def isPadding (b : UInt8) : Bool := b == 9 || b == 32

/-- The value without the spaces and tabs around it. -/
def trimValue (value : List UInt8) : List UInt8 :=
  ((value.dropWhile isPadding).reverse.dropWhile isPadding).reverse

end Switchboard.Http
