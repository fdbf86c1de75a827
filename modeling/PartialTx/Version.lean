/-! The version of the codec. -/

namespace PartialTx

def version : String := "0.3.0"

end PartialTx
