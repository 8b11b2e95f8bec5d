import Mathlib.Init

namespace P2PFFmpeg

def averrorEio : Int := -5

def averrorEagain : Int := -11

def averrorEnomem : Int := -12

def averrorEinval : Int := -22

def averrorEnospc : Int := -28

def averrorEpipe : Int := -32

def averrorEnosys : Int := -38

def averrorEtimedout : Int := -110

def averrorEof : Int := -541478725

def averrorInvaliddata : Int := -1094995529

def averrorPatchwelcome : Int := -1163346256

def averrorBug : Int := -558323010

def averrorExternal : Int := -542398533

def averrorEncoderNotFound : Int := -1129203192

def averrorDemuxerNotFound : Int := -1296385272

def int32Max : Int := 2147483647

def int32Min : Int := -2147483648

def int64Max : Int := 9223372036854775807

def int64Min : Int := -9223372036854775808

end P2PFFmpeg
