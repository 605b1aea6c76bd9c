/-!
# Lower case

Names that a user writes are compared without regard to case.
-/

namespace CryptoAudit.Text

/-- The letters of a text in lower case, where they are of ASCII. Outside ASCII only the Kelvin
sign and the capital I with dot have lower-case forms with letters of ASCII; none of the words that
are compared with such a text has a `k`, and the other form has a second character. -/
def lowerCase (s : String) : String := String.ofList (s.toList.map Char.toLower)

end CryptoAudit.Text
