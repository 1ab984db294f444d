set_option autoImplicit false

namespace DescriptorCheck.Number

def integerLimit : Int := 0x8000000000000000

def wordLimit : Int := 0x10000000000000000

end DescriptorCheck.Number
