/-!
The instructions of the virtual machine: mnemonic, number, and the kind of operands each takes.
-/
namespace ClassUsage

inductive Opcode where
  | nop | aconstNull | iconstM1 | iconst0 | iconst1 | iconst2 | iconst3 | iconst4 | iconst5
  | lconst0 | lconst1 | fconst0 | fconst1 | fconst2 | dconst0 | dconst1 | bipush | sipush | ldc
  | iload | lload | fload | dload | aload | iaload | laload | faload | daload | aaload | baload
  | caload | saload | istore | lstore | fstore | dstore | astore | iastore | lastore | fastore
  | dastore | aastore | bastore | castore | sastore | pop | pop2 | dup | dupX1 | dupX2 | dup2
  | dup2X1 | dup2X2 | swap | iadd | ladd | fadd | dadd | isub | lsub | fsub | dsub | imul | lmul
  | fmul | dmul | idiv | ldiv | fdiv | ddiv | irem | lrem | frem | drem | ineg | lneg | fneg
  | dneg | ishl | lshl | ishr | lshr | iushr | lushr | iand | land | ior | lor | ixor | lxor
  | iinc | i2l | i2f | i2d | l2i | l2f | l2d | f2i | f2l | f2d | d2i | d2l | d2f | i2b | i2c
  | i2s | lcmp | fcmpl | fcmpg | dcmpl | dcmpg | ifeq | ifne | iflt | ifge | ifgt | ifle
  | ifIcmpeq | ifIcmpne | ifIcmplt | ifIcmpge | ifIcmpgt | ifIcmple | ifAcmpeq | ifAcmpne | jump
  | jsr | ret | tableswitch | lookupswitch | ireturn | lreturn | freturn | dreturn | areturn
  | voidReturn | getstatic | putstatic | getfield | putfield | invokevirtual | invokespecial
  | invokestatic | invokeinterface | invokedynamic | newObject | newarray | anewarray
  | arraylength | athrow | checkcast | instanceof | monitorenter | monitorexit | multianewarray
  | ifnull | ifnonnull
  deriving DecidableEq, Repr

/-- What an instruction takes as operands. -/
inductive OperandKind where
  | nothing
  /-- A number: a pushed constant, or the element type of a primitive array. -/
  | number
  | slot
  | type
  | field
  | method
  | label
  | constant
  | increment
  | table
  | lookup
  | dynamicCall
  | arrayType
  deriving DecidableEq, Repr

namespace Opcode

def mnemonic : Opcode → String
  | .nop => "NOP"
  | .aconstNull => "ACONST_NULL"
  | .iconstM1 => "ICONST_M1"
  | .iconst0 => "ICONST_0"
  | .iconst1 => "ICONST_1"
  | .iconst2 => "ICONST_2"
  | .iconst3 => "ICONST_3"
  | .iconst4 => "ICONST_4"
  | .iconst5 => "ICONST_5"
  | .lconst0 => "LCONST_0"
  | .lconst1 => "LCONST_1"
  | .fconst0 => "FCONST_0"
  | .fconst1 => "FCONST_1"
  | .fconst2 => "FCONST_2"
  | .dconst0 => "DCONST_0"
  | .dconst1 => "DCONST_1"
  | .bipush => "BIPUSH"
  | .sipush => "SIPUSH"
  | .ldc => "LDC"
  | .iload => "ILOAD"
  | .lload => "LLOAD"
  | .fload => "FLOAD"
  | .dload => "DLOAD"
  | .aload => "ALOAD"
  | .iaload => "IALOAD"
  | .laload => "LALOAD"
  | .faload => "FALOAD"
  | .daload => "DALOAD"
  | .aaload => "AALOAD"
  | .baload => "BALOAD"
  | .caload => "CALOAD"
  | .saload => "SALOAD"
  | .istore => "ISTORE"
  | .lstore => "LSTORE"
  | .fstore => "FSTORE"
  | .dstore => "DSTORE"
  | .astore => "ASTORE"
  | .iastore => "IASTORE"
  | .lastore => "LASTORE"
  | .fastore => "FASTORE"
  | .dastore => "DASTORE"
  | .aastore => "AASTORE"
  | .bastore => "BASTORE"
  | .castore => "CASTORE"
  | .sastore => "SASTORE"
  | .pop => "POP"
  | .pop2 => "POP2"
  | .dup => "DUP"
  | .dupX1 => "DUP_X1"
  | .dupX2 => "DUP_X2"
  | .dup2 => "DUP2"
  | .dup2X1 => "DUP2_X1"
  | .dup2X2 => "DUP2_X2"
  | .swap => "SWAP"
  | .iadd => "IADD"
  | .ladd => "LADD"
  | .fadd => "FADD"
  | .dadd => "DADD"
  | .isub => "ISUB"
  | .lsub => "LSUB"
  | .fsub => "FSUB"
  | .dsub => "DSUB"
  | .imul => "IMUL"
  | .lmul => "LMUL"
  | .fmul => "FMUL"
  | .dmul => "DMUL"
  | .idiv => "IDIV"
  | .ldiv => "LDIV"
  | .fdiv => "FDIV"
  | .ddiv => "DDIV"
  | .irem => "IREM"
  | .lrem => "LREM"
  | .frem => "FREM"
  | .drem => "DREM"
  | .ineg => "INEG"
  | .lneg => "LNEG"
  | .fneg => "FNEG"
  | .dneg => "DNEG"
  | .ishl => "ISHL"
  | .lshl => "LSHL"
  | .ishr => "ISHR"
  | .lshr => "LSHR"
  | .iushr => "IUSHR"
  | .lushr => "LUSHR"
  | .iand => "IAND"
  | .land => "LAND"
  | .ior => "IOR"
  | .lor => "LOR"
  | .ixor => "IXOR"
  | .lxor => "LXOR"
  | .iinc => "IINC"
  | .i2l => "I2L"
  | .i2f => "I2F"
  | .i2d => "I2D"
  | .l2i => "L2I"
  | .l2f => "L2F"
  | .l2d => "L2D"
  | .f2i => "F2I"
  | .f2l => "F2L"
  | .f2d => "F2D"
  | .d2i => "D2I"
  | .d2l => "D2L"
  | .d2f => "D2F"
  | .i2b => "I2B"
  | .i2c => "I2C"
  | .i2s => "I2S"
  | .lcmp => "LCMP"
  | .fcmpl => "FCMPL"
  | .fcmpg => "FCMPG"
  | .dcmpl => "DCMPL"
  | .dcmpg => "DCMPG"
  | .ifeq => "IFEQ"
  | .ifne => "IFNE"
  | .iflt => "IFLT"
  | .ifge => "IFGE"
  | .ifgt => "IFGT"
  | .ifle => "IFLE"
  | .ifIcmpeq => "IF_ICMPEQ"
  | .ifIcmpne => "IF_ICMPNE"
  | .ifIcmplt => "IF_ICMPLT"
  | .ifIcmpge => "IF_ICMPGE"
  | .ifIcmpgt => "IF_ICMPGT"
  | .ifIcmple => "IF_ICMPLE"
  | .ifAcmpeq => "IF_ACMPEQ"
  | .ifAcmpne => "IF_ACMPNE"
  | .jump => "GOTO"
  | .jsr => "JSR"
  | .ret => "RET"
  | .tableswitch => "TABLESWITCH"
  | .lookupswitch => "LOOKUPSWITCH"
  | .ireturn => "IRETURN"
  | .lreturn => "LRETURN"
  | .freturn => "FRETURN"
  | .dreturn => "DRETURN"
  | .areturn => "ARETURN"
  | .voidReturn => "RETURN"
  | .getstatic => "GETSTATIC"
  | .putstatic => "PUTSTATIC"
  | .getfield => "GETFIELD"
  | .putfield => "PUTFIELD"
  | .invokevirtual => "INVOKEVIRTUAL"
  | .invokespecial => "INVOKESPECIAL"
  | .invokestatic => "INVOKESTATIC"
  | .invokeinterface => "INVOKEINTERFACE"
  | .invokedynamic => "INVOKEDYNAMIC"
  | .newObject => "NEW"
  | .newarray => "NEWARRAY"
  | .anewarray => "ANEWARRAY"
  | .arraylength => "ARRAYLENGTH"
  | .athrow => "ATHROW"
  | .checkcast => "CHECKCAST"
  | .instanceof => "INSTANCEOF"
  | .monitorenter => "MONITORENTER"
  | .monitorexit => "MONITOREXIT"
  | .multianewarray => "MULTIANEWARRAY"
  | .ifnull => "IFNULL"
  | .ifnonnull => "IFNONNULL"

def number : Opcode → Nat
  | .nop => 0
  | .aconstNull => 1
  | .iconstM1 => 2
  | .iconst0 => 3
  | .iconst1 => 4
  | .iconst2 => 5
  | .iconst3 => 6
  | .iconst4 => 7
  | .iconst5 => 8
  | .lconst0 => 9
  | .lconst1 => 10
  | .fconst0 => 11
  | .fconst1 => 12
  | .fconst2 => 13
  | .dconst0 => 14
  | .dconst1 => 15
  | .bipush => 16
  | .sipush => 17
  | .ldc => 18
  | .iload => 21
  | .lload => 22
  | .fload => 23
  | .dload => 24
  | .aload => 25
  | .iaload => 46
  | .laload => 47
  | .faload => 48
  | .daload => 49
  | .aaload => 50
  | .baload => 51
  | .caload => 52
  | .saload => 53
  | .istore => 54
  | .lstore => 55
  | .fstore => 56
  | .dstore => 57
  | .astore => 58
  | .iastore => 79
  | .lastore => 80
  | .fastore => 81
  | .dastore => 82
  | .aastore => 83
  | .bastore => 84
  | .castore => 85
  | .sastore => 86
  | .pop => 87
  | .pop2 => 88
  | .dup => 89
  | .dupX1 => 90
  | .dupX2 => 91
  | .dup2 => 92
  | .dup2X1 => 93
  | .dup2X2 => 94
  | .swap => 95
  | .iadd => 96
  | .ladd => 97
  | .fadd => 98
  | .dadd => 99
  | .isub => 100
  | .lsub => 101
  | .fsub => 102
  | .dsub => 103
  | .imul => 104
  | .lmul => 105
  | .fmul => 106
  | .dmul => 107
  | .idiv => 108
  | .ldiv => 109
  | .fdiv => 110
  | .ddiv => 111
  | .irem => 112
  | .lrem => 113
  | .frem => 114
  | .drem => 115
  | .ineg => 116
  | .lneg => 117
  | .fneg => 118
  | .dneg => 119
  | .ishl => 120
  | .lshl => 121
  | .ishr => 122
  | .lshr => 123
  | .iushr => 124
  | .lushr => 125
  | .iand => 126
  | .land => 127
  | .ior => 128
  | .lor => 129
  | .ixor => 130
  | .lxor => 131
  | .iinc => 132
  | .i2l => 133
  | .i2f => 134
  | .i2d => 135
  | .l2i => 136
  | .l2f => 137
  | .l2d => 138
  | .f2i => 139
  | .f2l => 140
  | .f2d => 141
  | .d2i => 142
  | .d2l => 143
  | .d2f => 144
  | .i2b => 145
  | .i2c => 146
  | .i2s => 147
  | .lcmp => 148
  | .fcmpl => 149
  | .fcmpg => 150
  | .dcmpl => 151
  | .dcmpg => 152
  | .ifeq => 153
  | .ifne => 154
  | .iflt => 155
  | .ifge => 156
  | .ifgt => 157
  | .ifle => 158
  | .ifIcmpeq => 159
  | .ifIcmpne => 160
  | .ifIcmplt => 161
  | .ifIcmpge => 162
  | .ifIcmpgt => 163
  | .ifIcmple => 164
  | .ifAcmpeq => 165
  | .ifAcmpne => 166
  | .jump => 167
  | .jsr => 168
  | .ret => 169
  | .tableswitch => 170
  | .lookupswitch => 171
  | .ireturn => 172
  | .lreturn => 173
  | .freturn => 174
  | .dreturn => 175
  | .areturn => 176
  | .voidReturn => 177
  | .getstatic => 178
  | .putstatic => 179
  | .getfield => 180
  | .putfield => 181
  | .invokevirtual => 182
  | .invokespecial => 183
  | .invokestatic => 184
  | .invokeinterface => 185
  | .invokedynamic => 186
  | .newObject => 187
  | .newarray => 188
  | .anewarray => 189
  | .arraylength => 190
  | .athrow => 191
  | .checkcast => 192
  | .instanceof => 193
  | .monitorenter => 194
  | .monitorexit => 195
  | .multianewarray => 197
  | .ifnull => 198
  | .ifnonnull => 199

/-- All instructions, by number. -/
def all : List Opcode :=
  [.nop, .aconstNull, .iconstM1, .iconst0, .iconst1, .iconst2, .iconst3, .iconst4, .iconst5,
  .lconst0, .lconst1, .fconst0, .fconst1, .fconst2, .dconst0, .dconst1, .bipush, .sipush, .ldc,
  .iload, .lload, .fload, .dload, .aload, .iaload, .laload, .faload, .daload, .aaload, .baload,
  .caload, .saload, .istore, .lstore, .fstore, .dstore, .astore, .iastore, .lastore, .fastore,
  .dastore, .aastore, .bastore, .castore, .sastore, .pop, .pop2, .dup, .dupX1, .dupX2, .dup2,
  .dup2X1, .dup2X2, .swap, .iadd, .ladd, .fadd, .dadd, .isub, .lsub, .fsub, .dsub, .imul, .lmul,
  .fmul, .dmul, .idiv, .ldiv, .fdiv, .ddiv, .irem, .lrem, .frem, .drem, .ineg, .lneg, .fneg,
  .dneg, .ishl, .lshl, .ishr, .lshr, .iushr, .lushr, .iand, .land, .ior, .lor, .ixor, .lxor,
  .iinc, .i2l, .i2f, .i2d, .l2i, .l2f, .l2d, .f2i, .f2l, .f2d, .d2i, .d2l, .d2f, .i2b, .i2c,
  .i2s, .lcmp, .fcmpl, .fcmpg, .dcmpl, .dcmpg, .ifeq, .ifne, .iflt, .ifge, .ifgt, .ifle,
  .ifIcmpeq, .ifIcmpne, .ifIcmplt, .ifIcmpge, .ifIcmpgt, .ifIcmple, .ifAcmpeq, .ifAcmpne, .jump,
  .jsr, .ret, .tableswitch, .lookupswitch, .ireturn, .lreturn, .freturn, .dreturn, .areturn,
  .voidReturn, .getstatic, .putstatic, .getfield, .putfield, .invokevirtual, .invokespecial,
  .invokestatic, .invokeinterface, .invokedynamic, .newObject, .newarray, .anewarray,
  .arraylength, .athrow, .checkcast, .instanceof, .monitorenter, .monitorexit, .multianewarray,
  .ifnull, .ifnonnull]

def operands : Opcode → OperandKind
  | .bipush | .sipush | .newarray => .number
  | .iload | .lload | .fload | .dload | .aload | .istore | .lstore | .fstore | .dstore | .astore
  | .ret => .slot
  | .newObject | .anewarray | .checkcast | .instanceof => .type
  | .getstatic | .putstatic | .getfield | .putfield => .field
  | .invokevirtual | .invokespecial | .invokestatic | .invokeinterface => .method
  | .ifeq | .ifne | .iflt | .ifge | .ifgt | .ifle | .ifIcmpeq | .ifIcmpne | .ifIcmplt | .ifIcmpge
  | .ifIcmpgt | .ifIcmple | .ifAcmpeq | .ifAcmpne | .jump | .jsr | .ifnull | .ifnonnull => .label
  | .ldc => .constant
  | .iinc => .increment
  | .tableswitch => .table
  | .lookupswitch => .lookup
  | .invokedynamic => .dynamicCall
  | .multianewarray => .arrayType
  | _ => .nothing

def ofMnemonic? (name : String) : Option Opcode := all.find? fun o => o.mnemonic = name

end Opcode

/-- The upper case of a character, where that is made of ASCII letters; others are left as they
are, since no mnemonic holds them. -/
def upperAscii (c : Char) : List Char :=
  match c with
  | 'ß' => ['S', 'S']
  | 'ı' => ['I']
  | 'ſ' => ['S']
  | 'ﬀ' => ['F', 'F']
  | 'ﬁ' => ['F', 'I']
  | 'ﬂ' => ['F', 'L']
  | 'ﬃ' => ['F', 'F', 'I']
  | 'ﬄ' => ['F', 'F', 'L']
  | 'ﬅ' => ['S', 'T']
  | 'ﬆ' => ['S', 'T']
  | c => [c.toUpper]

/-- The instruction of a mnemonic written in any case. -/
def Opcode.ofName? (name : String) : Option Opcode :=
  ofMnemonic? (String.ofList (name.toList.flatMap upperAscii))

/-- How a stack frame is given. -/
inductive FrameKind where
  | new | full | append | chop | same | same1
  deriving DecidableEq, Repr

namespace FrameKind

def mnemonic : FrameKind → String
  | .new => "F_NEW"
  | .full => "F_FULL"
  | .append => "F_APPEND"
  | .chop => "F_CHOP"
  | .same => "F_SAME"
  | .same1 => "F_SAME1"

def number : FrameKind → Int
  | .new => -1
  | .full => 0
  | .append => 1
  | .chop => 2
  | .same => 3
  | .same1 => 4

def all : List FrameKind := [.new, .full, .append, .chop, .same, .same1]

def ofMnemonic? (name : String) : Option FrameKind := all.find? fun k => k.mnemonic = name

end FrameKind

end ClassUsage
